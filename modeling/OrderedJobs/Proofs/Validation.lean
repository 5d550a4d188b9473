import OrderedJobs.Config.Basic

/-! # Validated configurations

Which values make a configuration, and what holds of it.  A configuration is made from values just
if each of them can be read by itself and what was read fits together (`Config.ofFields_iff`), and
then it leaves room for a job (`Config.limits_of_ofFields`).

For values of the right kinds (`Config.Request`), being read is a matter of bounds.  The bounds are
those of the usage (`Config.Within`), but for one way around them: the number of jobs that is taken
when none is asked for is not held against any, so that on a machine with very many processors it
may exceed the most jobs, and with it the number of slots (`Config.accepted_iff_within`). -/

namespace OrderedJobs.Config

variable {c c' : Config} {processors : Option Int} {f : Fields}

/-! ### Reading and checking -/

/-- What the fields of a configuration ask of each other. -/
structure Coherent (c : Config) : Prop where
  ring : ∀ slots, c.ring = some slots → c.jobs ≤ slots
  few : c.leading.length ≤ Line.maxArguments
  short : c.leading.flatten.length ≤ Line.maxLength

theorem checkLeading_iff : check.checkLeading c = .ok c' ↔
    c' = c ∧ c.leading.length ≤ Line.maxArguments ∧ c.leading.flatten.length ≤ Line.maxLength := by
  unfold check.checkLeading
  split
  · next hmany =>
      simp only [reduceCtorEq, false_iff]
      exact fun ⟨_, hfew, _⟩ => absurd hfew (Nat.not_le.2 hmany)
  · next hfew =>
      split
      · next hlong =>
          simp only [reduceCtorEq, false_iff]
          exact fun ⟨_, _, hshort⟩ => absurd hshort (Nat.not_le.2 hlong)
      · next hshort =>
          rw [Except.ok.injEq, eq_comm]
          exact ⟨fun heq => ⟨heq, Nat.not_lt.1 hfew, Nat.not_lt.1 hshort⟩, fun h => h.1⟩

theorem check_iff : check c = .ok c' ↔ c' = c ∧ c.Coherent := by
  unfold check
  cases hring : c.ring with
  | none =>
      simp only [checkLeading_iff]
      exact ⟨fun ⟨heq, hfew, hshort⟩ => ⟨heq, by simp [hring], hfew, hshort⟩,
        fun ⟨heq, hc⟩ => ⟨heq, hc.few, hc.short⟩⟩
  | some slots =>
      by_cases hlt : slots < c.jobs
      · simp only [hlt, if_true, reduceCtorEq, false_iff]
        intro ⟨_, hc⟩
        have hle := hc.ring slots hring
        omega
      · simp only [hlt, if_false, checkLeading_iff]
        refine ⟨fun ⟨heq, hfew, hshort⟩ => ⟨heq, ?_, hfew, hshort⟩,
          fun ⟨heq, hc⟩ => ⟨heq, hc.few, hc.short⟩⟩
        intro slots' hslots
        cases hring.symm.trans hslots
        omega

theorem Coherent.jobs_le_capacity (h : c.Coherent) : c.jobs ≤ c.capacity := by
  unfold capacity
  cases hring : c.ring with
  | none => exact Int.le_refl _
  | some slots => exact h.ring slots hring

/-- Values make a configuration just if each of them can be read, and what was read passes. -/
theorem ofFields_iff : ofFields processors f = .ok c ↔
    (readJobs processors f.jobs = .ok c.jobs ∧ readRing f.ring = .ok c.ring ∧
      readQuiet f.quiet = .ok c.quiet ∧ readProgress f.progress = .ok c.progress ∧
      readLeading f.leading = .ok c.leading) ∧ c.Coherent := by
  unfold ofFields
  constructor
  · intro h
    split at h
    · next jobs ring quiet progress leading hjobs hring hquiet hprogress hleading =>
        split at h
        · next c' hcheck =>
            cases h
            obtain ⟨rfl, hc⟩ := check_iff.1 hcheck
            exact ⟨⟨hjobs, hring, hquiet, hprogress, hleading⟩, hc⟩
        · cases h
    · cases h
  · rintro ⟨⟨hjobs, hring, hquiet, hprogress, hleading⟩, hc⟩
    rw [hjobs, hring, hquiet, hprogress, hleading]
    dsimp only
    rw [check_iff.2 ⟨rfl, hc⟩]

/-! ### Room for a job -/

theorem le_readNumber {least : Int} {v : Value} {n : Int}
    (h : readNumber (some least) v = .ok n) : least ≤ n := by
  unfold readNumber at h
  split at h
  · cases h
  · next m _ =>
      split at h
      · cases h
      · next hleast =>
          split at h
          · cases h
          · cases h
            simpa using hleast

theorem one_le_readJobs (hprocessors : ∀ n, processors = some n → 0 ≤ n) {v : Option Value}
    {n : Int} (h : readJobs processors v = .ok n) : 1 ≤ n := by
  unfold readJobs at h
  split at h
  · cases h
    unfold defaultJobs
    split
    · decide
    · decide
    · next m hne =>
        have hnn := hprocessors m rfl
        have hnz : m ≠ 0 := fun hzero => hne (hzero ▸ rfl)
        omega
  · exact le_readNumber h

theorem jobs_of_ofFields (hprocessors : ∀ n, processors = some n → 0 ≤ n)
    (h : ofFields processors f = .ok c) : 1 ≤ c.jobs ∧ c.jobs ≤ c.capacity := by
  obtain ⟨⟨hjobs, -⟩, hc⟩ := ofFields_iff.1 h
  exact ⟨one_le_readJobs hprocessors hjobs, hc.jobs_le_capacity⟩

theorem limits_of_room (hone : 1 ≤ c.jobs) (hcapacity : c.jobs ≤ c.capacity) :
    ∃ limits, c.limits = .ok limits ∧ (limits.concurrency : Int) = c.jobs ∧
      (limits.capacity : Int) = c.capacity := by
  unfold limits Limits.ofInts
  rw [dif_neg (by omega)]
  exact ⟨_, rfl, Int.toNat_of_nonneg (by omega), Int.toNat_of_nonneg (by omega)⟩

theorem limits_of_ofFields (hprocessors : ∀ n, processors = some n → 0 ≤ n)
    (h : ofFields processors f = .ok c) : ∃ limits, c.limits = .ok limits := by
  obtain ⟨hone, hcapacity⟩ := jobs_of_ofFields hprocessors h
  obtain ⟨limits, hlimits, -⟩ := limits_of_room hone hcapacity
  exact ⟨limits, hlimits⟩

/-! ### Values of the right kinds -/

/-- What may be asked of a configuration.  The number of slots and the progress notes may also be
asked for as nothing, which is as good as not asking. -/
structure Request where
  jobs : Option Int := none
  ring : Option (Option Int) := none
  quiet : Option Bool := none
  progress : Option (Option Bool) := none
  leading : Option Command := none

namespace Request

variable (q : Request)

/-- The values that a request gives. -/
def fields : Fields where
  jobs := q.jobs.map .int
  ring := q.ring.map fun slots => slots.elim .null .int
  quiet := q.quiet.map .bool
  progress := q.progress.map fun shown => shown.elim .null .bool
  leading := q.leading.map fun arguments => .list (arguments.map .bytes)

/-- The configuration that a request asks for, on a machine with a number of processors, if that is
known: without a number of jobs, twice as many as there are processors, or as one would be. -/
def config (processors : Option Nat) : Config where
  jobs := q.jobs.getD (2 * (max (processors.getD 1) 1 : Nat))
  ring := q.ring.join
  quiet := q.quiet.getD false
  progress := q.progress.join
  leading := q.leading.getD []

end Request

theorem readNumber_int_iff {least : Option Int} {n m : Int} : readNumber least (.int n) = .ok m ↔
    m = n ∧ (∀ bound, least = some bound → bound ≤ n) ∧ n ≤ maxJobs := by
  unfold readNumber Value.toNumber
  dsimp only
  split
  · next hsmall =>
      simp only [reduceCtorEq, false_iff]
      rintro ⟨-, hleast, -⟩
      obtain ⟨bound, hbound, hlt⟩ := (Option.any_eq_true _ _).1 hsmall
      have hle := hleast bound hbound
      simp only [decide_eq_true_eq] at hlt
      omega
  · next hleast =>
      split
      · next hlarge =>
          simp only [reduceCtorEq, false_iff]
          exact fun ⟨_, _, hle⟩ => absurd hle (Int.not_le.2 hlarge)
      · next hle =>
          rw [Except.ok.injEq, eq_comm]
          refine ⟨fun heq => ⟨heq, ?_, Int.not_lt.1 hle⟩, fun h => h.1⟩
          rintro bound rfl
          simpa using hleast

section request

variable (processors : Option Nat) (q : Request)

theorem defaultJobs_eq : defaultJobs (processors.map Int.ofNat) =
    (2 * (max (processors.getD 1) 1 : Nat) : Int) := by
  cases processors with
  | none => rfl
  | some n =>
      cases n with
      | zero => rfl
      | succ n =>
          show 2 * Int.ofNat (n + 1) = _
          rw [Option.getD_some, Nat.max_eq_left (Nat.succ_pos n)]
          rfl

theorem readJobs_iff {n : Int} :
    readJobs (processors.map Int.ofNat) q.fields.jobs = .ok n ↔
      n = (q.config processors).jobs ∧
        ∀ asked, q.jobs = some asked → 1 ≤ asked ∧ asked ≤ maxJobs := by
  unfold Request.fields Request.config
  cases q.jobs with
  | none =>
      show Except.ok (defaultJobs _) = _ ↔ _
      rw [defaultJobs_eq, Except.ok.injEq, eq_comm]
      simp
  | some asked =>
      show readNumber (some 1) (.int asked) = _ ↔ _
      simp [readNumber_int_iff]

theorem readRing_iff {ring : Option Int} : readRing q.fields.ring = .ok ring ↔
    ring = (q.config processors).ring ∧ ∀ slots, q.ring.join = some slots → slots ≤ maxJobs := by
  unfold Request.fields Request.config
  rcases q.ring with _ | _ | slots
  · simp [readRing, eq_comm]
  · simp [readRing, eq_comm]
  · show (readNumber none (.int slots)).map some = _ ↔ _
    cases hread : readNumber none (.int slots) with
    | error fault =>
        have hlarge : ¬ slots ≤ maxJobs := by
          intro hle
          rw [readNumber_int_iff.2 ⟨rfl, by simp, hle⟩] at hread
          cases hread
        simp [Except.map, hlarge]
    | ok n =>
        obtain ⟨rfl, -, hle⟩ := readNumber_int_iff.1 hread
        simp [Except.map, eq_comm, hle]

theorem readArguments_bytes (position : Nat) (arguments : Command) :
    readArguments position (arguments.map .bytes) = .ok arguments := by
  induction arguments generalizing position with
  | nil => rfl
  | cons b rest ih =>
      rw [List.map_cons, readArguments, ih]
      rfl

theorem read_others : readQuiet q.fields.quiet = .ok (q.config processors).quiet ∧
    readProgress q.fields.progress = .ok (q.config processors).progress ∧
    readLeading q.fields.leading = .ok (q.config processors).leading := by
  unfold Request.fields Request.config
  refine ⟨?_, ?_, ?_⟩
  · rcases q.quiet with _ | quiet <;> rfl
  · rcases q.progress with _ | _ | shown <;> rfl
  · rcases q.leading with _ | arguments
    · rfl
    · exact readArguments_bytes 0 arguments

/-- A request is accepted just if the numbers it gives are within their bounds and the configuration
it asks for passes the check, and then that is what it gets. -/
theorem ofFields_request_iff {c : Config} :
    ofFields (processors.map Int.ofNat) q.fields = .ok c ↔ c = q.config processors ∧
      (∀ asked, q.jobs = some asked → 1 ≤ asked ∧ asked ≤ maxJobs) ∧
      (∀ slots, q.ring.join = some slots → slots ≤ maxJobs) ∧ (q.config processors).Coherent := by
  obtain ⟨hquiet, hprogress, hleading⟩ := read_others processors q
  rw [ofFields_iff, readJobs_iff, readRing_iff processors, hquiet, hprogress, hleading]
  constructor
  · rintro ⟨⟨⟨hjobs, hasked⟩, ⟨hring, hslots⟩, hq, hp, hl⟩, hc⟩
    have heq : c = q.config processors := by
      cases c
      cases hq
      cases hp
      cases hl
      congr
    exact ⟨heq, hasked, hslots, heq ▸ hc⟩
  · rintro ⟨rfl, hasked, hslots, hc⟩
    exact ⟨⟨⟨rfl, hasked⟩, ⟨rfl, hslots⟩, rfl, rfl, rfl⟩, hc⟩

/-- The bounds of the usage: between one and the most jobs, and slots for all of them and not more
than the most. -/
structure Within (c : Config) : Prop where
  jobs_pos : 1 ≤ c.jobs
  jobs_le : c.jobs ≤ maxJobs
  ring : ∀ slots, c.ring = some slots → c.jobs ≤ slots ∧ slots ≤ maxJobs
  few : c.leading.length ≤ Line.maxArguments
  short : c.leading.flatten.length ≤ Line.maxLength

/-- Neither a number of jobs nor one of slots is asked for, and the number of jobs taken instead is
more than the most. -/
structure Request.Boundless (q : Request) (processors : Option Nat) : Prop where
  jobs : q.jobs = none
  ring : q.ring.join = none
  default : maxJobs < (q.config processors).jobs
  few : (q.config processors).leading.length ≤ Line.maxArguments
  short : (q.config processors).leading.flatten.length ≤ Line.maxLength

theorem Request.config_jobs {asked : Int} (h : q.jobs = some asked) :
    (q.config processors).jobs = asked := by
  show q.jobs.getD _ = _
  rw [h, Option.getD_some]

/-- What is checked are the bounds of the usage, unless nothing bounds the number of jobs. -/
theorem bounds_iff_within :
    ((∀ asked, q.jobs = some asked → 1 ≤ asked ∧ asked ≤ maxJobs) ∧
      (∀ slots, q.ring.join = some slots → slots ≤ maxJobs) ∧ (q.config processors).Coherent) ↔
    (q.config processors).Within ∨ q.Boundless processors := by
  constructor
  · rintro ⟨hasked, hslots, hc⟩
    have hring : ∀ slots, (q.config processors).ring = some slots →
        (q.config processors).jobs ≤ slots ∧ slots ≤ maxJobs :=
      fun slots hs => ⟨hc.ring slots hs, hslots slots hs⟩
    cases hjobs : q.jobs with
    | some asked =>
        have hbounds := hasked asked hjobs
        rw [← q.config_jobs processors hjobs] at hbounds
        exact .inl ⟨hbounds.1, hbounds.2, hring, hc.few, hc.short⟩
    | none =>
        have hpos : 1 ≤ (q.config processors).jobs := by
          show 1 ≤ q.jobs.getD _
          rw [hjobs, Option.getD_none]
          omega
        by_cases hle : (q.config processors).jobs ≤ maxJobs
        · exact .inl ⟨hpos, hle, hring, hc.few, hc.short⟩
        · cases hr : q.ring.join with
          | none => exact .inr ⟨hjobs, hr, Int.not_le.1 hle, hc.few, hc.short⟩
          | some slots =>
              have hslots := hring slots hr
              omega
  · rintro (hw | hb)
    · refine ⟨fun asked hjobs => ?_, fun slots hs => (hw.ring slots hs).2,
        fun slots hs => (hw.ring slots hs).1, hw.few, hw.short⟩
      rw [← q.config_jobs processors hjobs]
      exact ⟨hw.jobs_pos, hw.jobs_le⟩
    · have hring : ∀ slots, q.ring.join ≠ some slots := by simp [hb.ring]
      refine ⟨fun asked hjobs => ?_, fun slots hs => absurd hs (hring slots),
        fun slots hs => absurd hs (hring slots), hb.few, hb.short⟩
      rw [hb.jobs] at hjobs
      cases hjobs

/-- It takes very many processors for nothing to bound the number of jobs. -/
theorem Request.Boundless.many_processors {processors : Option Nat} {q : Request}
    (h : q.Boundless processors) : ∃ n, processors = some n ∧ 5000 ≤ n := by
  have hlarge := h.default
  rw [show (q.config processors).jobs = (2 * (max (processors.getD 1) 1 : Nat) : Int) by
    show q.jobs.getD _ = _
    rw [h.jobs, Option.getD_none], show maxJobs = 9999 from rfl] at hlarge
  cases processors with
  | none =>
      rw [Option.getD_none] at hlarge
      omega
  | some n =>
      rw [Option.getD_some] at hlarge
      exact ⟨n, rfl, by omega⟩

theorem Within.capacity_le (h : c.Within) : c.capacity ≤ maxJobs := by
  unfold capacity
  cases hring : c.ring with
  | none => exact h.jobs_le
  | some slots => exact (h.ring slots hring).2

/-- A request is accepted just if the configuration it asks for is within the bounds of the usage,
or nothing bounds the number of jobs that it gets, which takes at least 5000 processors.  An
accepted request gets the configuration it asks for; that has at least one job and as many slots as
jobs, at most the most unless nothing bounds them; and its limits leave room for a job. -/
theorem accepted_iff_within (processors : Option Nat) (q : Request) :
    let c := q.config processors
    let result := ofFields (processors.map Int.ofNat) q.fields
    ((∃ c', result = .ok c') ↔ c.Within ∨ q.Boundless processors) ∧
    (q.Boundless processors → ∃ n, processors = some n ∧ 5000 ≤ n) ∧
    ∀ c', result = .ok c' → c' = c ∧
      (1 ≤ c.jobs ∧ c.jobs ≤ c.capacity ∧ (c.capacity ≤ maxJobs ∨ q.Boundless processors)) ∧
      ∃ limits, c.limits = .ok limits ∧ (limits.concurrency : Int) = c.jobs ∧
        (limits.capacity : Int) = c.capacity := by
  intro c result
  refine ⟨?_, Request.Boundless.many_processors, fun c' h => ?_⟩
  · rw [← bounds_iff_within]
    exact ⟨fun ⟨c', h⟩ => ((ofFields_request_iff processors q).1 h).2,
      fun h => ⟨c, (ofFields_request_iff processors q).2 ⟨rfl, h⟩⟩⟩
  · obtain ⟨rfl, hbounds⟩ := (ofFields_request_iff processors q).1 h
    have hprocessors : ∀ n, processors.map Int.ofNat = some n → 0 ≤ n := by
      intro n hn
      obtain ⟨m, -, rfl⟩ := Option.map_eq_some_iff.1 hn
      exact Int.natCast_nonneg m
    obtain ⟨hone, hcapacity⟩ := jobs_of_ofFields hprocessors h
    refine ⟨rfl, ⟨hone, hcapacity, ?_⟩, limits_of_room hone hcapacity⟩
    exact ((bounds_iff_within processors q).1 hbounds).imp_left Within.capacity_le

/-- With 5000 processors, ten thousand jobs may run if no number is asked for. -/
theorem accepted_iff_within_boundless :
    let q : Request := {}
    q.Boundless (some 5000) ∧ ofFields (some 5000) q.fields = .ok (q.config (some 5000)) ∧
      (q.config (some 5000)).jobs = 10000 ∧
      ∃ limits, (q.config (some 5000)).limits = .ok limits ∧
        (limits.concurrency : Int) = 10000 := by
  intro q
  have hboundless : q.Boundless (some 5000) := ⟨rfl, rfl, by decide, by decide, by decide⟩
  obtain ⟨hiff, -, hall⟩ := accepted_iff_within (some 5000) q
  obtain ⟨c, h⟩ := hiff.2 (.inr hboundless)
  obtain ⟨rfl, -, limits, hlimits, hconcurrency, -⟩ := hall c h
  exact ⟨hboundless, h, rfl, limits, hlimits, hconcurrency⟩

end request

end OrderedJobs.Config
