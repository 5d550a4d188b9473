import OrderedJobs.Proofs.BoardChanges
import OrderedJobs.Proofs.JobLines

/-! # The life of a job

A job is created, launched, drained and retired, in this order, and meanwhile it is reaped: before
its output is copied, while it is, or afterwards.  Whatever comes last, the end of its child or that
of its output, retires it at once (`Job.Advance`).  Every change of the board is at most one such
step in the life of each job (`Board.Sound.advances`), because the stage of a job is known from the
cursor and the two marks (`Board.Staged`).  So along a run no job ever goes back, each is retired at
most once, and when the run returns each has been retired and the ring is empty (`Run.life_cycle`).
-/

namespace OrderedJobs

/-! ### One job -/

/-- A single step in the life of a job. -/
inductive Job.Advance : Job → Job → Prop
  | launched (index : Int) (command : Command) (child : Nat) :
      Advance { index, command } (({ index, command } : Job).runBy child)
  | begun {job : Job} (hd : job.drained = false)
      (hs : job.stage = .launched ∨ job.stage = .draining) :
      Advance job { job with stage := .draining }
  | reapedFirst {job : Job} (hr : job.reaped = false) (hd : job.drained = false)
      (hs : job.stage = .launched ∨ job.stage = .draining) :
      Advance job { job with reaped := true }
  | reapedLast {job : Job} (hr : job.reaped = false) (hd : job.drained = true)
      (hs : job.stage = .draining) :
      Advance job { job with reaped := true, stage := .retired }
  | drainedFirst {job : Job} (hr : job.reaped = false) (hd : job.drained = false)
      (hs : job.stage = .draining) :
      Advance job { job with output := none, drained := true }
  | drainedLast {job : Job} (hr : job.reaped = true) (hd : job.drained = false)
      (hs : job.stage = .draining) :
      Advance job { job with output := none, drained := true, stage := .retired }

/-- What never changes back in the life of a job. -/
structure Job.Ages (old new : Job) : Prop where
  forward : old.stage.rank ≤ new.stage.rank
  reaped : old.reaped = true → new.reaped = true
  drained : old.drained = true → new.drained = true
  retired : old.stage = .retired → new = old

namespace Job

variable {old new job : Job} {j : Nat} {current : Int}

theorem Ages.refl (job : Job) : job.Ages job := ⟨Nat.le_refl _, id, id, fun _ => rfl⟩

theorem Ages.trans {a b c : Job} (h : a.Ages b) (k : b.Ages c) : a.Ages c where
  forward := Nat.le_trans h.forward k.forward
  reaped := k.reaped ∘ h.reaped
  drained := k.drained ∘ h.drained
  retired := by
    intro hs
    have hb := h.retired hs
    subst hb
    exact k.retired hs

theorem Advance.rank (h : old.Advance new) :
    old.stage.rank ≤ new.stage.rank ∧ new.stage.rank ≤ old.stage.rank + 1 := by
  cases h with
  | launched => exact ⟨Nat.le_succ 0, Nat.le_refl 1⟩
  | begun hd hs | reapedFirst hr hd hs => rcases hs with hs | hs <;> simp [hs, Stage.rank]
  | reapedLast hr hd hs | drainedFirst hr hd hs | drainedLast hr hd hs => simp [hs, Stage.rank]

theorem Advance.ages (h : old.Advance new) : old.Ages new where
  forward := h.rank.1
  reaped := by
    cases h with
    | launched | begun | drainedFirst | drainedLast => exact id
    | reapedFirst | reapedLast => exact fun _ => rfl
  drained := by
    cases h with
    | launched | begun | reapedFirst | reapedLast => exact id
    | drainedFirst | drainedLast => exact fun _ => rfl
  retired := by
    intro hretired
    cases h with
    | launched => cases hretired
    | begun hd hs | reapedFirst hr hd hs =>
        rcases hs with hs | hs <;> rw [hs] at hretired <;> cases hretired
    | reapedLast hr hd hs | drainedFirst hr hd hs | drainedLast hr hd hs =>
        rw [hs] at hretired
        cases hretired

/-- The step that marks a job as both reaped and drained retires it, and no other does. -/
theorem Advance.retired_iff (h : old.Advance new) :
    new.stage = .retired ↔ new.reaped = true ∧ new.drained = true := by
  cases h with
  | launched => simp [runBy]
  | begun hd hs => simp [hd]
  | reapedFirst hr hd hs => rcases hs with hs | hs <;> simp [hs, hd]
  | drainedFirst hr hd hs => simp [hs, hr]
  | reapedLast hr hd hs => simp [hd]
  | drainedLast hr hd hs => simp [hr]

theorem ages_of_advances (h : Relation.ReflTransGen Advance old new) : old.Ages new := by
  induction h with
  | refl => exact .refl old
  | tail _ hstep ih => exact ih.trans hstep.ages

/-- What the board of a run knows of the stage of its `j`-th job. -/
structure Staged (current : Int) (j : Nat) (job : Job) : Prop where
  ahead : current < j → job.stage = .launched
  active : (j : Int) = current → job.stage = .launched ∨ job.stage = .draining
  behind : (j : Int) < current → job.reaped = false → job.stage = .draining

/-- A job after the end of its child. -/
def afterExit (job : Job) : Job :=
  if job.drained then { job with reaped := true, stage := .retired }
  else { job with reaped := true }

/-- A job after the end of its output. -/
def afterEnd (job : Job) : Job :=
  if job.reaped then { job with output := none, drained := true, stage := .retired }
  else { job with output := none, drained := true }

theorem Staged.undrained (h : job.Staged current j) (hle : current ≤ j) :
    job.stage = .launched ∨ job.stage = .draining := by
  rcases Int.lt_or_eq_of_le hle with hlt | heq
  · exact .inl (h.ahead hlt)
  · exact h.active heq.symm

theorem Staged.advance_afterExit (h : job.Staged current j) (hk : job.Kept current j)
    (hr : job.reaped = false) : job.Advance job.afterExit := by
  unfold afterExit
  by_cases hd : job.drained = true
  · rw [if_pos hd]
    exact .reapedLast hr hd (h.behind (hk.drained.1 hd) hr)
  · rw [if_neg hd]
    refine .reapedFirst hr (Bool.not_eq_true _ ▸ hd) (h.undrained ?_)
    rw [hk.drained] at hd
    omega

theorem advance_afterEnd (hd : job.drained = false) (hs : job.stage = .draining) :
    job.Advance job.afterEnd := by
  unfold afterEnd
  by_cases hr : job.reaped = true
  · rw [if_pos hr]
    exact .drainedLast hr hd hs
  · rw [if_neg hr]
    exact .drainedFirst (Bool.not_eq_true _ ▸ hr) hd hs

theorem Staged.afterExit (h : job.Staged current j) (hk : job.Kept current j) :
    job.afterExit.Staged current j := by
  unfold Job.afterExit
  by_cases hd : job.drained = true
  · rw [if_pos hd]
    have hlt := hk.drained.1 hd
    exact ⟨fun hgt => by omega, fun heq => by omega, fun _ hr => by cases hr⟩
  · rw [if_neg hd]
    rw [hk.drained] at hd
    exact ⟨h.ahead, h.active, fun hlt => absurd hlt hd⟩

/-- Once its output is at its end, the job at the cursor is behind it. -/
theorem staged_afterEnd (hs : job.stage = .draining) : job.afterEnd.Staged ((j : Int) + 1) j where
  ahead := fun hgt => by omega
  active := fun heq => by omega
  behind := by
    intro _ hr
    unfold afterEnd at hr ⊢
    by_cases hreaped : job.reaped = true
    · rw [if_pos hreaped] at hr
      rw [show job.reaped = false from hr] at hreaped
      cases hreaped
    · rw [if_neg hreaped]
      exact hs

end Job

/-! ### All jobs -/

namespace Board

variable {b b' : Board} {j k : Nat} {job new old : Job}

/-- What the board of a run knows of the stages of its jobs. -/
def Staged (b : Board) : Prop :=
  ∀ (j : Nat) (job : Job), b.jobs[j]? = some job → job.Staged b.current j

/-- The second board has the jobs of the first, further on in their lives, and others that were
created since. -/
structure Lives (b b' : Board) : Prop where
  length : b.jobs.length ≤ b'.jobs.length
  advances : ∀ (k : Nat) (new : Job), b'.jobs[k]? = some new → ∃ old,
    (b.jobs[k]? = some old ∨ b.jobs[k]? = none ∧ ∃ command, old = { index := k, command }) ∧
      Relation.ReflTransGen Job.Advance old new

theorem Lives.refl (b : Board) : b.Lives b :=
  ⟨Nat.le_refl _, fun _ new hk => ⟨new, .inl hk, .refl⟩⟩

theorem Lives.trans {b₁ b₂ b₃ : Board} (h : b₁.Lives b₂) (h' : b₂.Lives b₃) : b₁.Lives b₃ where
  length := Nat.le_trans h.length h'.length
  advances := by
    intro k new hk
    obtain ⟨mid, hmid | ⟨hnone, hcreated⟩, hlife'⟩ := h'.advances k new hk
    · obtain ⟨old, hold, hlife⟩ := h.advances k mid hmid
      exact ⟨old, hold, hlife.trans hlife'⟩
    · rw [List.getElem?_eq_none_iff] at hnone
      refine ⟨mid, .inr ⟨List.getElem?_eq_none ?_, hcreated⟩, hlife'⟩
      exact Nat.le_trans h.length hnone

theorem Lives.ages (h : b.Lives b') (hold : b.jobs[k]? = some old) :
    ∃ new, b'.jobs[k]? = some new ∧ old.Ages new := by
  have hlt := (List.getElem?_eq_some_iff.1 hold).1
  have hnew := List.getElem?_eq_getElem (l := b'.jobs) (i := k) (Nat.lt_of_lt_of_le hlt h.length)
  obtain ⟨job, hjob | ⟨hnone, -⟩, hlife⟩ := h.advances k _ hnew
  · rw [hold] at hjob
    cases hjob
    exact ⟨_, hnew, Job.ages_of_advances hlife⟩
  · rw [hold] at hnone
    cases hnone

theorem lives_modify {f : Job → Job}
    (hjobs : ∀ k : Nat, b'.jobs[k]? = (b.jobs[k]?).map fun job => if j = k then f job else job)
    (hj : b.jobs[j]? = some job) (hstep : job.Advance (f job)) : b.Lives b' where
  length := by
    refine Nat.le_of_not_lt fun hlt => ?_
    have hlast := hjobs b'.jobs.length
    rw [List.getElem?_eq_none (Nat.le_refl _), List.getElem?_eq_getElem hlt] at hlast
    cases hlast
  advances := by
    intro k new hk
    rw [hjobs] at hk
    obtain ⟨old, hold, rfl⟩ := Option.map_eq_some_iff.1 hk
    refine ⟨old, .inl hold, ?_⟩
    by_cases hjk : j = k
    · subst hjk
      rw [hj] at hold
      cases hold
      rw [if_pos rfl]
      exact .single hstep
    · rw [if_neg hjk]

theorem jobs_settled (b : Board) (j k : Nat) : (b.settled j).jobs[k]? =
    (b.jobs[k]?).map fun job => if j = k ∧ job.reaped = true ∧ job.drained = true then
      { job with stage := .retired } else job := by
  by_cases hjk : j = k
  · subst hjk
    cases hj : b.jobs[j]? with
    | none =>
        unfold settled
        rw [hj]
        exact hj
    | some job =>
        by_cases hboth : job.reaped = true ∧ job.drained = true
        · rw [settled_eq_vacate hj hboth, Option.map_some, if_pos ⟨rfl, hboth⟩]
          show (b.jobs.modify j _)[j]? = _
          rw [List.getElem?_modify_eq, hj]
          rfl
        · rw [settled_eq_self hj hboth, Option.map_some, if_neg (fun h => hboth h.2), hj]
  · have hsame : (b.settled j).jobs[k]? = b.jobs[k]? := by
      rcases b.settled_cases j with heq | ⟨index, heq⟩
      · rw [heq]
      · rw [heq]
        exact List.getElem?_modify_ne _ _ hjk
    rw [hsame]
    cases b.jobs[k]? <;> simp [hjk]

theorem jobs_reaps (b : Board) (pid : Int) (j k : Nat) (status : WaitStatus) :
    ((b.recordExit pid j status).settled j).jobs[k]? =
      (b.jobs[k]?).map fun job => if j = k then job.afterExit else job := by
  rw [jobs_settled, recordExit, List.getElem?_modify]
  cases b.jobs[k]? with
  | none => rfl
  | some job => by_cases hjk : j = k <;> simp [hjk, Job.afterExit]

theorem jobs_drains (b : Board) (j k : Nat) : ((b.recordDrained j).settled j).jobs[k]? =
    (b.jobs[k]?).map fun job => if j = k then job.afterEnd else job := by
  rw [jobs_settled, recordDrained, updateJob, List.getElem?_modify]
  cases b.jobs[k]? with
  | none => rfl
  | some job => by_cases hjk : j = k <;> simp [hjk, Job.afterEnd]

/-- A single change of the board is at most one step in the life of each job. -/
theorem Sound.advances (h : b.Sound) (hs : b.Staged) (hc : b.Change b') : b.Lives b' := by
  cases hc with
  | exhausts => exact ⟨(Lives.refl b).length, (Lives.refl b).advances⟩
  | launches command =>
      refine ⟨?_, fun k new hk => ?_⟩
      · show b.jobs.length ≤ (b.jobs ++ [_]).length
        rw [List.length_append]
        exact Nat.le_add_right _ _
      · rcases getElem?_concat_cases hk with hk | ⟨rfl, rfl⟩
        · exact ⟨new, .inl hk, .refl⟩
        · refine ⟨_, .inr ⟨List.getElem?_eq_none (Nat.le_refl _), command, rfl⟩, .single ?_⟩
          rw [h.next]
          exact .launched _ command _
  | reaps j status hj =>
      obtain ⟨job, hjob, hr⟩ := mem_unreaped.1 hj
      exact lives_modify (jobs_reaps b _ j · status) hjob
        ((hs j job hjob).advance_afterExit (h.kept j job hjob) hr)
  | begins j hj hlt =>
      have hnext := h.next
      have hjob := List.getElem?_eq_getElem (l := b.jobs) (i := j) (by omega)
      have hle : b.current ≤ j := by omega
      exact lives_modify (fun k => List.getElem?_modify _ j b.jobs k) hjob
        (.begun ((h.kept j _ hjob).undrained hle) ((hs j _ hjob).undrained hle))
  | drains j hj hlt hstage =>
      obtain ⟨job, hjob, hstage⟩ := Option.map_eq_some_iff.1 hstage
      exact lives_modify (jobs_drains b j) hjob
        (Job.advance_afterEnd ((h.kept j job hjob).undrained (by omega)) hstage)

theorem Staged.modify (hs : b.Staged) (hcurrent : b'.current = b.current) {f : Job → Job}
    (hjobs : ∀ k : Nat, b'.jobs[k]? = (b.jobs[k]?).map fun job => if j = k then f job else job)
    (hf : ∀ job, b.jobs[j]? = some job → (f job).Staged b.current j) : b'.Staged := by
  intro k new hk
  rw [hjobs] at hk
  rw [hcurrent]
  obtain ⟨old, hold, rfl⟩ := Option.map_eq_some_iff.1 hk
  by_cases hjk : j = k
  · subst hjk
    rw [if_pos rfl]
    exact hf old hold
  · rw [if_neg hjk]
    exact hs k old hold

theorem Staged.change (hs : b.Staged) (h : b.Sound) (hc : b.Change b') : b'.Staged := by
  cases hc with
  | exhausts => exact hs
  | launches command =>
      intro k new hk
      rcases getElem?_concat_cases hk with hk | ⟨rfl, rfl⟩
      · exact hs k new hk
      · have hle : b.current ≤ b.jobs.length := by
          rw [← h.next]
          exact h.current_le
        exact ⟨fun _ => rfl, fun _ => .inl rfl, fun hlt => by
          have hlt : (b.jobs.length : Int) < b.current := hlt
          omega⟩
  | reaps j status =>
      exact hs.modify (settled_current _ _) (jobs_reaps b _ j · status) fun job hjob =>
        (hs j job hjob).afterExit (h.kept j job hjob)
  | begins j hj =>
      refine hs.modify rfl (fun k => List.getElem?_modify _ j b.jobs k) fun job hjob => ?_
      exact ⟨fun hgt => by omega, fun _ => .inr rfl, fun hlt => by omega⟩
  | drains j hj hlt hstage =>
      intro k new hk
      rw [settled_current]
      show Job.Staged (b.current + 1) k _
      rw [jobs_drains] at hk
      obtain ⟨old, hold, rfl⟩ := Option.map_eq_some_iff.1 hk
      have hk := hs k old hold
      by_cases hjk : j = k
      · subst hjk
        rw [hold] at hstage
        rw [if_pos rfl, ← hj]
        exact Job.staged_afterEnd (Option.some.inj hstage)
      · rw [if_neg hjk]
        -- The job after the one that was drained has not been touched.
        refine ⟨fun hgt => hk.ahead (by omega), fun heq => .inl (hk.ahead (by omega)), ?_⟩
        exact fun hbehind => hk.behind (by omega)

theorem Sound.lives (h : b.Sound) (hs : b.Staged) (hc : Relation.ReflTransGen Change b b') :
    b'.Sound ∧ b'.Staged ∧ b.Lives b' := by
  induction hc with
  | refl => exact ⟨h, hs, .refl b⟩
  | tail _ hchange ih =>
      obtain ⟨hsound, hstaged, hlives⟩ := ih
      exact ⟨hsound.change hchange, hstaged.change hsound hchange,
        hlives.trans (hsound.advances hstaged hchange)⟩

/-- Jobs are retired in time: what the stages of the jobs tell between two steps of a run. -/
structure Timely (b : Board) : Prop where
  retired : ∀ job ∈ b.jobs, (job.stage = .retired ↔ job.reaped = true ∧ job.drained = true)
  vacant : ∀ (j : Nat) (job : Job), b.jobs[j]? = some job →
    (job.stage = .retired ↔ ∀ slot : Nat, b.ring[slot]? ≠ some (some j))
  draining : ∀ job ∈ b.jobs, job.drained = false → job.stage = .draining → job.index = b.current
  launched : ∀ job ∈ b.jobs, job.stage ≠ .created

theorem Sound.timely (h : b.Sound) (hs : b.Staged) : b.Timely := by
  have hretired : ∀ (j : Nat) (job : Job), b.jobs[j]? = some job →
      (job.stage = .retired ↔ job.reaped = true ∧ job.drained = true) := by
    intro j job hj
    rw [h.retired j job hj, live_iff hj, Decidable.not_not]
  constructor
  case retired =>
    intro job hmem
    obtain ⟨j, hj⟩ := List.mem_iff_getElem?.1 hmem
    exact hretired j job hj
  case vacant =>
    intro j job hj
    rw [h.retired j job hj]
    constructor
    · intro hdead slot hslot
      exact hdead ((h.occupied slot j).1 hslot).1
    · intro hvacant hlive
      exact hvacant (b.slot j) ((h.occupied _ j).2 ⟨hlive, rfl⟩)
  case draining =>
    intro job hmem hd hdraining
    obtain ⟨j, hj⟩ := List.mem_iff_getElem?.1 hmem
    have hkept := h.kept j job hj
    rw [hkept.index]
    have hnot : ¬ (j : Int) < b.current := by
      rw [← hkept.drained, hd]
      decide
    rcases Int.lt_or_eq_of_le (Int.not_lt.1 hnot) with hlt | heq
    · rw [(hs j job hj).ahead hlt] at hdraining
      cases hdraining
    · exact heq.symm
  case launched =>
    intro job hmem hcreated
    obtain ⟨j, hj⟩ := List.mem_iff_getElem?.1 hmem
    have hstaged := hs j job hj
    have hnot : job.stage ≠ .launched ∧ job.stage ≠ .draining ∧ job.stage ≠ .retired := by
      rw [hcreated]
      decide
    rcases Int.lt_or_le (j : Int) b.current with hlt | hle
    · have hd := (h.kept j job hj).drained.2 hlt
      by_cases hr : job.reaped = true
      · exact hnot.2.2 ((hretired j job hj).2 ⟨hr, hd⟩)
      · exact hnot.2.1 (hstaged.behind hlt (Bool.not_eq_true _ ▸ hr))
    · rcases hstaged.undrained hle with hs | hs
      · exact hnot.1 hs
      · exact hnot.2.1 hs

/-! ### How often a job is retired -/

/-- The `k`-th job has been retired. -/
def hasRetired (b : Board) (k : Nat) : Bool :=
  (b.jobs[k]?).any fun job => decide (job.stage = .retired)

/-- How often the `k`-th job is retired along a row of boards. -/
def retirements (k : Nat) : List Board → Nat
  | b :: b' :: rest => (!b.hasRetired k && b'.hasRetired k).toNat + retirements k (b' :: rest)
  | _ => 0

theorem Lives.hasRetired (h : b.Lives b') (hk : b.hasRetired k = true) :
    b'.hasRetired k = true := by
  unfold Board.hasRetired at *
  obtain ⟨old, hold, hs⟩ := (Option.any_eq_true ..).1 hk
  obtain ⟨new, hnew, hages⟩ := h.ages hold
  rw [hages.retired (of_decide_eq_true hs)] at hnew
  rw [hnew]
  exact hs

/-- A job is retired along a row of boards if it is retired in the end, but was not in the
beginning; and then once. -/
theorem retirements_add {l : List Board} {last : Board} (h : (b :: l).Pairwise Lives)
    (hlast : (b :: l).getLast? = some last) (k : Nat) :
    retirements k (b :: l) + (b.hasRetired k).toNat = (last.hasRetired k).toNat := by
  induction l generalizing b with
  | nil =>
      cases hlast
      exact Nat.zero_add _
  | cons b' l ih =>
      rw [List.pairwise_cons] at h
      have hlives := h.1 b' List.mem_cons_self
      rw [List.getLast?_cons_cons] at hlast
      rw [← ih h.2 hlast, retirements]
      cases hk : b.hasRetired k with
      | true =>
          rw [hlives.hasRetired hk]
          simp
      | false => simp [Nat.add_comm]

theorem retirements_le {l : List Board} (h : (b :: l).Pairwise Lives) (k : Nat) :
    retirements k (b :: l) ≤ 1 := by
  have hcount := retirements_add h (List.getLast?_eq_some_getLast (List.cons_ne_nil b l)) k
  have hle := Bool.toNat_le (((b :: l).getLast (List.cons_ne_nil b l)).hasRetired k)
  omega

/-- Once there is nothing to reap or to drain, the ring is empty. -/
theorem Sound.ring_eq (h : b.Sound) (hdead : ∀ j, ¬ b.Live j) :
    b.ring = List.replicate b.limits.capacity none := by
  refine List.eq_replicate_iff.2 ⟨h.slots, fun occupant hmem => ?_⟩
  cases occupant with
  | none => rfl
  | some j =>
      obtain ⟨slot, hslot⟩ := List.mem_iff_getElem?.1 hmem
      exact absurd ((h.occupied slot j).1 hslot).1 (hdead j)

end Board

/-! ### A whole run -/

namespace Run

variable {r r₀ : Run} {o : Holdings}

/-- The boards of a run: the first, and those after its steps. -/
def boards (r : Run) (visits : List Visit) : List Board :=
  r.session.board :: visits.map fun v => v.after.session.board

theorem Steady.lives_step (h : r.Steady o) (hs : r.session.board.Staged) {r' : Run}
    {kind : StepKind} {result : Except Failure Unit} (hstep : r.step = some (kind, result, r')) :
    r'.session.board.Sound ∧ r'.session.board.Staged ∧
      r.session.board.Lives r'.session.board :=
  h.sound.board.lives hs (h.changes_step hstep)

/-- By induction on the steps of a run: every board of it is sound, each job lives on from every
board to every later one, and the last board is that of the final state. -/
theorem Steady.lives_steps (hsteady : r.Steady o) (hstaged : r.session.board.Staged) :
    (r.boards r.steps.visits).Pairwise Board.Lives ∧
    (∀ b ∈ r.boards r.steps.visits, b.Sound ∧ b.Staged) ∧
    (r.boards r.steps.visits).getLast? = some r.steps.final.session.board := by
  fun_induction steps r with
  | case1 r h =>
      refine ⟨List.pairwise_singleton _ _, fun b hb => ?_, rfl⟩
      rw [List.mem_singleton.1 hb]
      exact ⟨hsteady.sound.board, hstaged⟩
  | case2 r kind e r' h =>
      obtain ⟨hsound', hstaged', hlives⟩ := hsteady.lives_step hstaged h
      refine ⟨List.pairwise_pair.2 hlives, fun b hb => ?_, rfl⟩
      rcases List.mem_cons.1 hb with rfl | hb
      · exact ⟨hsteady.sound.board, hstaged⟩
      · rw [List.mem_singleton.1 hb]
        exact ⟨hsound', hstaged'⟩
  | case3 r kind r' h t ih =>
      obtain ⟨-, hstaged', hlives⟩ := hsteady.lives_step hstaged h
      obtain ⟨hpairwise, hall, hlast⟩ := ih ((hsteady.step h).steady rfl) hstaged'
      refine ⟨List.pairwise_cons.2 ⟨fun b hb => ?_, hpairwise⟩, fun b hb => ?_, ?_⟩
      · rcases List.mem_cons.1 hb with rfl | hrest
        · exact hlives
        · exact hlives.trans ((List.pairwise_cons.1 hpairwise).1 b hrest)
      · rcases List.mem_cons.1 hb with rfl | hb
        · exact ⟨hsteady.sound.board, hstaged⟩
        · exact hall b hb
      · exact List.getLast?_cons_cons.trans hlast

theorem ended_execute {n : Notifier} {host : Host} {code : Int}
    (hn : Notifier.install r₀.session.host = (.ok n, host))
    (h : r₀.execute.outcome = .ok code) :
    (r₀.onHost fun _ => host).steps.outcome = .ok () ∧
      Ended (r₀.onHost fun _ => host).steps.final.session r₀.execute.final.session := by
  revert h
  unfold execute
  rw [hn]
  unfold underNotifier
  dsimp only
  split
  · intro h
    cases h
  · next hok => exact fun _ => ⟨hok, ended_conclude _ n⟩

theorem lives_execute (c : Config) (limits : Limits) (platform : Platform)
    (rounds : List (List Event)) (handler : Handler) (wakeup : Option Descriptor) (o : Holdings)
    (stream : Bytes) :
    let r₀ := prepare c limits (Host.found platform rounds handler wakeup o) stream
    let boards := r₀.boards r₀.execute.visits
    boards.Pairwise Board.Lives ∧ (∀ b ∈ boards, b.Sound ∧ b.Staged) ∧
    ∀ code, r₀.execute.outcome = .ok code →
      boards.getLast? = some r₀.execute.final.session.board ∧
      r₀.execute.final.session.board.limits = limits ∧
      ∀ j, ¬ r₀.execute.final.session.board.Live j := by
  intro r₀ boards
  have hempty : r₀.session.board.Staged := fun j job hj => by cases hj
  cases hn : Notifier.install r₀.session.host with
  | mk result host =>
      cases result with
      | error e =>
          have hexecute : r₀.execute = ⟨.error (.notifier e), [], r₀.onHost fun _ => host⟩ := by
            unfold execute
            rw [hn]
          have hboards : boards = [Board.empty limits] := by
            show r₀.boards _ = _
            rw [hexecute]
            rfl
          rw [hboards]
          refine ⟨List.pairwise_singleton _ _, fun b hb => ?_, fun code hok => ?_⟩
          · rw [List.mem_singleton.1 hb]
            exact ⟨Board.sound_empty limits, hempty⟩
          · rw [hexecute] at hok
            cases hok
      | ok n =>
          have hreached : Reached r₀ (r₀.onHost fun _ => host) := .start hn
          obtain ⟨hsteady, -⟩ := steady_of_found hreached
          have hboards : boards =
              (r₀.onHost fun _ => host).boards (r₀.onHost fun _ => host).steps.visits := by
            show r₀.boards _ = _
            rw [visits_execute hn]
            rfl
          obtain ⟨hlives, hall, hlast⟩ := hsteady.lives_steps hempty
          rw [hboards]
          refine ⟨hlives, hall, fun code hok => ?_⟩
          obtain ⟨houtcome, hended⟩ := ended_execute hn hok
          rw [hended.board]
          have hends := (r₀.onHost fun _ => host).ends_steps.reached hreached
          rw [houtcome] at hends
          rcases hends with ⟨-, hfinal, hdone⟩ | ⟨_, _, _, hfail, -⟩
          · obtain ⟨-, hrunning, hcursors⟩ := done_of_step_none hdone
            obtain ⟨hsound, hlimits⟩ := sound_of_found hfinal
            exact ⟨hlast, hlimits, hsound.board.not_live hcursors hrunning⟩
          · cases hfail

/-- Along every run no job goes back in its life, and each is retired at most once, by the step that
marks it as both reaped and drained; between two steps the retired jobs are those that are marked so
and those that are in no slot, and of the others only the one at the cursor may be being drained.
When the run returns, every job has been retired once and the ring is empty. -/
theorem life_cycle (c : Config) (limits : Limits) (platform : Platform)
    (rounds : List (List Event)) (handler : Handler) (wakeup : Option Descriptor) (o : Holdings)
    (stream : Bytes) :
    let r₀ := prepare c limits (Host.found platform rounds handler wakeup o) stream
    let boards := r₀.boards r₀.execute.visits
    (∀ old new : Job, old.Advance new →
      (old.stage.rank ≤ new.stage.rank ∧ new.stage.rank ≤ old.stage.rank + 1) ∧
      (new.stage = .retired ↔ new.reaped = true ∧ new.drained = true)) ∧
    (boards.Pairwise fun b b' => b.Lives b' ∧ ∀ (k : Nat) (old : Job), b.jobs[k]? = some old →
      ∃ new, b'.jobs[k]? = some new ∧ old.Ages new) ∧
    (∀ b ∈ boards, b.Timely) ∧
    (∀ k, Board.retirements k boards ≤ 1) ∧
    ∀ code, r₀.execute.outcome = .ok code →
      let b := r₀.execute.final.session.board
      (∀ job ∈ b.jobs, job.stage = .retired) ∧
      b.ring = List.replicate limits.capacity none ∧
      ∀ k, k < b.jobs.length → Board.retirements k boards = 1 := by
  intro r₀ boards
  obtain ⟨hlives, hall, hreturns⟩ :=
    lives_execute c limits platform rounds handler wakeup o stream
  refine ⟨fun old new h => ⟨h.rank, h.retired_iff⟩,
    hlives.imp fun h => ⟨h, fun _ _ hold => h.ages hold⟩,
    fun b hb => (hall b hb).1.timely (hall b hb).2, Board.retirements_le hlives,
    fun code hok => ?_⟩
  intro b
  obtain ⟨hlast, hlimits, hdead⟩ := hreturns code hok
  obtain ⟨hsound, -⟩ := hall b (List.mem_of_getLast? hlast)
  have hretired : ∀ (k : Nat) (job : Job), b.jobs[k]? = some job → job.stage = .retired :=
    fun k job hk => (hsound.retired k job hk).2 (hdead k)
  refine ⟨fun job hmem => ?_, ?_, fun k hk => ?_⟩
  · obtain ⟨k, hk⟩ := List.mem_iff_getElem?.1 hmem
    exact hretired k job hk
  · rw [← hlimits]
    exact hsound.ring_eq hdead
  · have hjob := List.getElem?_eq_getElem hk
    have hcount := Board.retirements_add hlives hlast k
    have hfirst : r₀.session.board.hasRetired k = false := rfl
    have hfinal : b.hasRetired k = true := by
      rw [Board.hasRetired, hjob, Option.any_some, hretired k _ hjob]
      rfl
    rw [hfirst, hfinal] at hcount
    exact hcount

/-- Two jobs, of which the second ends first: when the run returns each of them has been retired
once. -/
theorem life_cycle_two_lines :
    let r₀ := prepare ⟨2, some 3, true, none, []⟩ ⟨2, 3, by decide, by decide⟩
      (Host.found {} [[.finish 1 0 false], [.finish 0 0 false]] .default none {})
      (Source.ofLines [[0x61], [0x62]])
    let b := r₀.execute.final.session.board
    ∃ code, r₀.execute.outcome = .ok code ∧ b.jobs.length = 2 ∧
      (∀ job ∈ b.jobs, job.stage = .retired) ∧ b.ring = [none, none, none] ∧
      ∀ k, k < 2 → Board.retirements k (r₀.boards r₀.execute.visits) = 1 := by
  intro r₀ b
  have hvalid : ∀ text ∈ [[0x61], [0x62]], Line.Valid [] text := by decide
  obtain ⟨code, hok⟩ : ∃ code, r₀.execute.outcome = .ok code :=
    returns_of_spared hvalid ⟨rfl, rfl, rfl, rfl, rfl⟩
  obtain ⟨-, -, -, -, hreturns⟩ := life_cycle ⟨2, some 3, true, none, []⟩
    ⟨2, 3, by decide, by decide⟩ {} [[.finish 1 0 false], [.finish 0 0 false]] .default none {}
    (Source.ofLines [[0x61], [0x62]])
  obtain ⟨hretired, hring, honce⟩ := hreturns code hok
  have hlength : b.jobs.length = 2 := by
    obtain ⟨done, hdone, -, hended⟩ := done_of_execute hok
    obtain ⟨hsound, -⟩ := sound_of_found hdone
    obtain ⟨-, -, hlines⟩ := lined_execute ⟨2, some 3, true, none, []⟩
      ⟨2, 3, by decide, by decide⟩ {} [[.finish 1 0 false], [.finish 0 0 false]] .default none {}
      (Source.ofLines [[0x61], [0x62]])
    show r₀.execute.final.session.board.jobs.length = 2
    rw [hended.board, ← hsound.children, ← hended.children, (hlines code hok).1]
    decide
  exact ⟨code, hok, hlength, hretired, hring,
    fun k hk => honce k (Nat.lt_of_lt_of_eq hk hlength.symm)⟩

end Run

end OrderedJobs
