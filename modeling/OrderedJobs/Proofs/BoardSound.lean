import OrderedJobs.Board
import OrderedJobs.Host.Basic
import OrderedJobs.Proofs.Positions

/-! # Sound boards

What holds of the board of a run between any two changes to it.  Jobs are numbered in the order of
their launch, and the `j`-th job is run by the `j`-th child.  The cursors are at most the capacity
apart; the jobs before `current` are drained and the others hold their output.  The running children
are those of the jobs not reaped yet, in the order of their launch (`Board.Counts`).  A job sits in
the slot of its index exactly as long as it is *live*, that is, not both reaped and drained
(`Board.Rings`).

A job that has just become reaped and drained is no longer live but still in the ring, so the two
parts are kept apart, and the ring is described for any notion of live jobs.  A launch keeps a board
sound (`Sound.enroll`). -/

namespace OrderedJobs

/-- What the board of a run knows of its `j`-th job, whatever the progress of the job. -/
structure Job.Kept (current : Int) (j : Nat) (job : Job) : Prop where
  index : job.index = j
  pid : job.pid = some (Host.pidOf j)
  drained : job.drained = true ↔ (j : Int) < current
  output : job.output = if (j : Int) < current then none else some j

theorem Job.Kept.undrained {current : Int} {j : Nat} {job : Job} (h : job.Kept current j)
    (hle : current ≤ j) : job.drained = false := by
  rw [← Bool.not_eq_true, h.drained]
  exact Int.not_lt.2 hle

namespace Board

variable {b : Board} {live : Nat → Prop} {j : Nat} {job : Job}

/-- The `j`-th job has not been both reaped and drained. -/
def Live (b : Board) (j : Nat) : Prop :=
  ∃ job, b.jobs[j]? = some job ∧ ¬(job.reaped = true ∧ job.drained = true)

theorem live_iff (hj : b.jobs[j]? = some job) :
    b.Live j ↔ ¬(job.reaped = true ∧ job.drained = true) := by
  constructor
  · rintro ⟨job', hj', hboth⟩
    rw [hj] at hj'
    cases hj'
    exact hboth
  · exact fun hboth => ⟨job, hj, hboth⟩

/-- The jobs that have not been reaped, in the order of their launch. -/
def unreaped (b : Board) : List Nat :=
  (List.range b.jobs.length).filter fun j => (b.jobs[j]?).any fun job => !job.reaped

/-- The jobs, the cursors and the counters of a board fit together. -/
structure Counts (b : Board) : Prop where
  kept : ∀ (j : Nat) (job : Job), b.jobs[j]? = some job → job.Kept b.current j
  next : b.next = b.jobs.length
  started : b.started = b.next
  finished : b.finished + b.running.length = b.started
  current_nonneg : 0 ≤ b.current
  current_le : b.current ≤ b.next
  next_le : b.next ≤ b.current + b.limits.capacity
  running : b.running = b.unreaped.map fun j => (Host.pidOf j, j)
  running_le : b.running.length ≤ b.limits.concurrency

/-- The ring holds the live jobs, each in the slot of its index, and none of them is more than the
capacity behind the next job. -/
structure Rings (b : Board) (live : Nat → Prop) : Prop where
  slots : b.ring.length = b.limits.capacity
  occupied : ∀ s j, b.ring[s]? = some (some j) ↔ live j ∧ b.slot j = s
  recent : ∀ j, live j → b.next ≤ j + b.limits.capacity
  retired : ∀ (j : Nat) (job : Job), b.jobs[j]? = some job → (job.stage = .retired ↔ ¬ live j)

/-- What holds of the board of a run. -/
structure Sound (b : Board) : Prop extends b.Counts, b.Rings b.Live

/-! ### Positions, slots and process numbers -/

theorem pidOf_inj {i j : Nat} : Host.pidOf i = Host.pidOf j ↔ i = j := by
  unfold Host.pidOf
  omega

theorem mem_unreaped : j ∈ b.unreaped ↔ ∃ job, b.jobs[j]? = some job ∧ job.reaped = false := by
  unfold unreaped
  rw [List.mem_filter, List.mem_range, Option.any_eq_true]
  constructor
  · rintro ⟨-, job, hj, hr⟩
    exact ⟨job, hj, by simpa using hr⟩
  · rintro ⟨job, hj, hr⟩
    exact ⟨(List.getElem?_eq_some_iff.1 hj).1, job, hj, by simp [hr]⟩

theorem nodup_unreaped (b : Board) : b.unreaped.Nodup :=
  List.nodup_range.filter _

theorem Counts.mem_running (h : b.Counts) {pid : Int} :
    (pid, j) ∈ b.running ↔ pid = Host.pidOf j ∧ j ∈ b.unreaped := by
  rw [h.running, List.mem_map]
  constructor
  · rintro ⟨k, hk, heq⟩
    cases heq
    exact ⟨rfl, hk⟩
  · rintro ⟨rfl, hj⟩
    exact ⟨j, hj, rfl⟩

theorem Counts.nodup_running (h : b.Counts) : (b.running.map Prod.fst).Nodup := by
  rw [h.running, List.map_map]
  refine List.Pairwise.map _ (fun i k hne => ?_) b.nodup_unreaped
  exact fun heq => hne (pidOf_inj.1 heq)

/-- The occupant of the slot of a live job is that job. -/
theorem Rings.occupant_eq (h : b.Rings live) (hj : live j) : b.occupant j = some j := by
  unfold occupant
  rw [(h.occupied (b.slot j) j).2 ⟨hj, rfl⟩]
  rfl

theorem Rings.occupant_eq_none (h : b.Rings live) {index : Int} (ho : b.occupant index = none)
    (hj : live j) : b.slot j ≠ b.slot index := by
  intro heq
  have hs := (h.occupied (b.slot j) j).2 ⟨hj, rfl⟩
  unfold occupant at ho
  rw [← heq, hs] at ho
  cases ho

/-- Between the cursors, the active job is the one at `current`. -/
theorem Sound.active_eq (h : b.Sound) (hlt : b.current < b.next) :
    b.active = some b.current.toNat := by
  have hnn := h.current_nonneg
  have hlen : b.current.toNat < b.jobs.length := by
    have := h.next
    omega
  have hj := List.getElem?_eq_getElem hlen
  have hlive : b.Live b.current.toNat := by
    refine ⟨_, hj, fun hboth => ?_⟩
    have := (h.kept _ _ hj).drained.1 hboth.2
    omega
  unfold active
  rw [if_neg (by omega), ← h.occupant_eq hlive, Int.toNat_of_nonneg hnn]

theorem active_eq_none (h : b.current = b.next) : b.active = none := by
  unfold active
  rw [if_pos h]

/-! ### The empty board and the end of the input -/

theorem sound_empty (limits : Limits) : (Board.empty limits).Sound where
  kept := by intro j job h; simp [empty] at h
  next := rfl
  started := rfl
  finished := rfl
  current_nonneg := Int.le_refl 0
  current_le := Int.le_refl 0
  next_le := by simp [empty]
  running := rfl
  running_le := Nat.zero_le _
  slots := List.length_replicate
  occupied := by
    intro s j
    constructor
    · intro h
      simp [empty, List.getElem?_replicate] at h
    · rintro ⟨⟨job, h, -⟩, -⟩
      simp [empty] at h
  recent := by
    rintro j ⟨job, h, -⟩
    simp [empty] at h
  retired := by intro j job h; simp [empty] at h

theorem Sound.exhaust (h : b.Sound) : ({ b with exhausted := true } : Board).Sound where
  kept := h.kept
  next := h.next
  started := h.started
  finished := h.finished
  current_nonneg := h.current_nonneg
  current_le := h.current_le
  next_le := h.next_le
  running := h.running
  running_le := h.running_le
  slots := h.slots
  occupied := h.occupied
  recent := h.recent
  retired := h.retired

/-! ### Launching -/

/-- Room for a launch: a free place among the running, among the undrained and in the ring. -/
theorem canLaunch_iff : b.canLaunch = true ↔
    b.running.length < b.limits.concurrency ∧ b.next - b.current < b.limits.capacity ∧
      b.occupant b.next = none := by
  unfold canLaunch
  rw [Bool.and_eq_true, Bool.and_eq_true, decide_eq_true_eq, decide_eq_true_eq,
    Option.isNone_iff_eq_none, and_assoc]

theorem slot_add_capacity (b : Board) (index : Int) :
    b.slot (index + b.limits.capacity) = b.slot index := by
  unfold slot
  rw [Int.add_emod_right]

theorem Counts.register_eq (h : b.Counts) {jobs : List Job} {ring : List (Option Nat)} :
    (({ b with jobs, ring } : Board).register (Host.pidOf b.jobs.length) b.jobs.length).running =
      b.running ++ [(Host.pidOf b.jobs.length, b.jobs.length)] := by
  unfold register
  rw [if_neg]
  intro hany
  obtain ⟨⟨pid, k⟩, hk, heq⟩ := List.any_eq_true.1 hany
  obtain ⟨rfl, hmem⟩ := h.mem_running.1 hk
  obtain ⟨job, hjob, -⟩ := mem_unreaped.1 hmem
  have hlt := (List.getElem?_eq_some_iff.1 hjob).1
  have := pidOf_inj.1 (eq_of_beq heq)
  omega

theorem unreaped_concat {b' : Board} {new : Job} (hjobs : b'.jobs = b.jobs ++ [new])
    (hnew : new.reaped = false) : b'.unreaped = b.unreaped ++ [b.jobs.length] := by
  unfold unreaped
  rw [hjobs, List.length_append, List.length_singleton, List.range_succ, List.filter_append]
  congr 1
  · refine List.filter_congr fun k hk => ?_
    rw [List.getElem?_append_left (List.mem_range.1 hk)]
  · rw [List.filter_cons_of_pos, List.filter_nil]
    simp [hnew]

theorem live_concat {b' : Board} {new : Job} (hjobs : b'.jobs = b.jobs ++ [new])
    (hnew : new.reaped = false) : b'.Live j ↔ b.Live j ∨ j = b.jobs.length := by
  constructor
  · rintro ⟨job, hj, hlive⟩
    rw [hjobs] at hj
    rcases getElem?_concat_cases hj with hj | ⟨rfl, -⟩
    · exact .inl ⟨job, hj, hlive⟩
    · exact .inr rfl
  · rintro (⟨job, hj, hlive⟩ | rfl)
    · exact ⟨job, by rw [hjobs]; exact getElem?_concat_of_some hj, hlive⟩
    · exact ⟨new, by rw [hjobs, List.getElem?_concat_length], by simp [hnew]⟩

/-- The second board is the first with one more launched job. -/
structure Enrolled (b : Board) (job : Job) (b' : Board) : Prop where
  limits : b'.limits = b.limits
  jobs : b'.jobs = b.jobs ++ [job]
  ring : b'.ring = b.ring.set (b.slot b.next) (some b.jobs.length)
  running : b'.running = b.running ++ [(Host.pidOf b.jobs.length, b.jobs.length)]
  current : b'.current = b.current
  next : b'.next = b.next + 1
  started : b'.started = b.started + 1
  finished : b'.finished = b.finished

theorem Counts.enrolled (h : b.Counts) (hindex : job.index = b.next) :
    Enrolled b job (b.enroll job (Host.pidOf b.jobs.length)) where
  limits := rfl
  jobs := rfl
  ring := by
    rw [← hindex]
    rfl
  running := h.register_eq
  current := rfl
  next := rfl
  started := rfl
  finished := rfl

section enrolled

variable {b' : Board} (he : Enrolled b job b') (hc : b.canLaunch = true)
include he hc

theorem Enrolled.counts (h : b.Counts) (hk : job.Kept b.current b.jobs.length)
    (hr : job.reaped = false) : b'.Counts where
  kept := by
    intro j job' hj
    rw [he.jobs] at hj
    rw [he.current]
    rcases getElem?_concat_cases hj with hj | ⟨rfl, rfl⟩
    · exact h.kept j job' hj
    · exact hk
  next := by
    rw [he.next, he.jobs, List.length_append, h.next]
    rfl
  started := by rw [he.started, he.next, h.started]
  finished := by
    have := h.finished
    rw [he.finished, he.started, he.running, List.length_append, List.length_singleton]
    omega
  current_nonneg := he.current ▸ h.current_nonneg
  current_le := by
    have := h.current_le
    rw [he.current, he.next]
    omega
  next_le := by
    obtain ⟨-, hroom, -⟩ := canLaunch_iff.1 hc
    rw [he.next, he.current, he.limits]
    omega
  running := by
    rw [he.running, unreaped_concat he.jobs hr, List.map_append, ← h.running]
    rfl
  running_le := by
    obtain ⟨hroom, -, -⟩ := canLaunch_iff.1 hc
    rw [he.running, he.limits, List.length_append, List.length_singleton]
    omega

theorem Enrolled.rings (h : b.Sound) (hr : job.reaped = false) (hs : job.stage = .launched) :
    b'.Rings b'.Live := by
  obtain ⟨-, -, hfree⟩ := canLaunch_iff.1 hc
  have hnext := h.next
  have hlive : ∀ j, b'.Live j ↔ b.Live j ∨ j = b.jobs.length := fun j => live_concat he.jobs hr
  have hslot : ∀ i, b'.slot i = b.slot i := fun i => by unfold slot; rw [he.limits]
  constructor
  case slots => rw [he.ring, he.limits, List.length_set, h.slots]
  case occupied =>
    intro s j
    have hlt : b.slot b.next < b.ring.length := by rw [h.slots]; exact b.slot_lt b.next
    rw [he.ring, hlive, hslot, List.getElem?_set]
    by_cases hs : b.slot b.next = s
    · subst hs
      rw [if_pos rfl, if_pos hlt]
      constructor
      · intro heq
        cases heq
        exact ⟨.inr rfl, by rw [hnext]⟩
      · rintro ⟨hj | rfl, hsj⟩
        · exact absurd hsj (h.occupant_eq_none hfree hj)
        · rfl
    · rw [if_neg hs, h.occupied]
      constructor
      · rintro ⟨hj, hsj⟩
        exact ⟨.inl hj, hsj⟩
      · rintro ⟨hj | rfl, hsj⟩
        · exact ⟨hj, hsj⟩
        · rw [← hnext] at hsj
          exact absurd hsj hs
  case recent =>
    intro j hj
    rw [he.next, he.limits]
    have hcap := b.limits.capacity_pos
    rcases (hlive j).1 hj with hj | rfl
    · -- A job exactly the capacity back would sit in the slot that is free.
      have hrecent := h.recent j hj
      have hne : b.next ≠ j + b.limits.capacity := by
        intro heq
        apply h.occupant_eq_none hfree hj
        rw [heq, slot_add_capacity]
      omega
    · omega
  case retired =>
    intro j job' hj
    rw [hlive]
    rw [he.jobs] at hj
    rcases getElem?_concat_cases hj with hj | ⟨rfl, rfl⟩
    · have hlt := (List.getElem?_eq_some_iff.1 hj).1
      rw [h.retired j job' hj]
      constructor
      · rintro hdead (hlive | rfl)
        · exact hdead hlive
        · omega
      · intro hdead hlive
        exact hdead (.inl hlive)
    · rw [hs]
      constructor
      · intro hstage
        cases hstage
      · intro hdead
        exact absurd (.inr rfl) hdead

end enrolled

/-- A launched job joins the board, the ring and the running. -/
theorem Sound.enroll (h : b.Sound) (hc : b.canLaunch = true)
    (hk : job.Kept b.current b.jobs.length) (hr : job.reaped = false)
    (hs : job.stage = .launched) : (b.enroll job (Host.pidOf b.jobs.length)).Sound := by
  have he := h.toCounts.enrolled (hk.index.trans h.next.symm)
  exact ⟨he.counts hc h.toCounts hk hr, he.rings hc h hr hs⟩

end Board

end OrderedJobs
