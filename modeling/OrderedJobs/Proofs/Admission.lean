import OrderedJobs.Proofs.JobLines
import OrderedJobs.Proofs.RingAndCursors

/-! # Admission

A run may launch a job when fewer than the limit run, when the cursors are less than the capacity
apart, and when the slot of the next job is free.  On the board of a run these three tests come to
two: a place among the running, and the end of the job that is exactly the capacity behind the next
one, if there is such a job (`Board.Sound.canLaunch_iff_through`).  That job is the only one that
can be in the way: nobody further behind is live, and nobody nearer shares the slot
(`Board.Sound.occupant_next_eq_none_iff`).  The cursors never refuse what the slot admits, because
the job at the cursor is live (`Board.Sound.next_sub_lt`).

So a run that waits although there is input has a reason to, and a launch never drives a live job
from its slot (`Run.admission_exact`). -/

namespace OrderedJobs

namespace Board

variable {b : Board} {limits : Limits}

/-! ### The slot of the next job -/

theorem eq_add_capacity_of_slot_eq {i k : Int} (hslot : b.slot i = b.slot k) (hlt : i < k)
    (hle : k ≤ i + b.limits.capacity) : k = i + b.limits.capacity := by
  have hcap := b.limits.capacity_pos
  have hi := Int.emod_nonneg i (b := b.limits.capacity) (by omega)
  have hk := Int.emod_nonneg k (b := b.limits.capacity) (by omega)
  have hmod : k % (b.limits.capacity : Int) = i % (b.limits.capacity : Int) := by
    unfold slot at hslot
    omega
  have hdvd : (b.limits.capacity : Int) ∣ k - i :=
    Int.dvd_of_emod_eq_zero (Int.emod_eq_emod_iff_emod_sub_eq_zero.1 hmod)
  have := Int.le_of_dvd (by omega) hdvd
  omega

theorem Sound.occupant_next_eq_none_iff (h : b.Sound) :
    b.occupant b.next = none ↔ ∀ j : Nat, b.Live j → b.next ≠ j + b.limits.capacity := by
  constructor
  · intro hfree j hlive heq
    apply h.occupant_eq_none hfree hlive
    rw [heq, slot_add_capacity]
  · intro hnone
    cases ho : b.occupant b.next with
    | none => rfl
    | some k =>
        unfold occupant at ho
        obtain ⟨hlive, hslot⟩ := (h.occupied _ k).1 (Option.join_eq_some_iff.1 ho)
        have hrecent := h.recent k hlive
        have hlt : (k : Int) < b.next := by
          obtain ⟨job, hjob, -⟩ := hlive
          have := (List.getElem?_eq_some_iff.1 hjob).1
          have := h.next
          omega
        exact absurd (eq_add_capacity_of_slot_eq hslot hlt hrecent) (hnone k hlive)

theorem Sound.exists_job (h : b.Sound) (index : Int) (hnn : 0 ≤ index) (hlt : index < b.next) :
    ∃ (j : Nat) (job : Job), b.jobs[j]? = some job ∧ (j : Int) = index ∧ job.index = index := by
  have hnext := h.next
  have hjob := List.getElem?_eq_getElem (l := b.jobs) (i := index.toNat) (by omega)
  refine ⟨_, _, hjob, Int.toNat_of_nonneg hnn, ?_⟩
  rw [(h.kept _ _ hjob).index, Int.toNat_of_nonneg hnn]

/-- If the slot of the next job is free, then the cursors leave room as well: the job at the cursor
is live, so it is not the capacity back. -/
theorem Sound.next_sub_lt (h : b.Sound) (hfree : b.occupant b.next = none) :
    b.next - b.current < b.limits.capacity := by
  have hcap := b.limits.capacity_pos
  rcases Int.lt_or_eq_of_le h.next_le with hlt | heq
  · omega
  · exfalso
    obtain ⟨j, job, hjob, hj, -⟩ := h.exists_job b.current h.current_nonneg (by omega)
    exact h.occupant_next_eq_none_iff.1 hfree j (h.live_current hj hjob) (by omega)

/-! ### Admission in terms of jobs -/

/-- The job that is the capacity behind the next one has been reaped and drained. -/
def Through (b : Board) : Prop :=
  ∃ job ∈ b.jobs, job.index = b.next - b.limits.capacity ∧ job.reaped = true ∧ job.drained = true

theorem Sound.occupant_next_iff_through (h : b.Sound) :
    b.occupant b.next = none ↔ b.next < b.limits.capacity ∨ b.Through := by
  rw [h.occupant_next_eq_none_iff]
  constructor
  · intro hnone
    rcases Int.lt_or_le b.next b.limits.capacity with hlt | hle
    · exact .inl hlt
    · have hcap := b.limits.capacity_pos
      obtain ⟨j, job, hjob, hj, hindex⟩ :=
        h.exists_job (b.next - b.limits.capacity) (by omega) (by omega)
      have hdead : ¬ b.Live j := fun hlive => hnone j hlive (by omega)
      rw [live_iff hjob, Decidable.not_not] at hdead
      exact .inr ⟨job, List.mem_of_getElem? hjob, hindex, hdead⟩
  · rintro (hlt | ⟨job, hmem, hindex, hboth⟩) j ⟨job', hjob', hlive⟩ heq
    · omega
    · obtain ⟨k, hk⟩ := List.mem_iff_getElem?.1 hmem
      have hkj : k = j := by
        have := (h.kept k job hk).index
        omega
      subst hkj
      rw [hk] at hjob'
      cases hjob'
      exact hlive hboth

/-- Admission, without a word of slots and cursors. -/
theorem Sound.canLaunch_iff_through (h : b.Sound) : b.canLaunch = true ↔
    b.running.length < b.limits.concurrency ∧ (b.next < b.limits.capacity ∨ b.Through) := by
  rw [canLaunch_iff, ← h.occupant_next_iff_through]
  constructor
  · rintro ⟨hroom, -, hfree⟩
    exact ⟨hroom, hfree⟩
  · rintro ⟨hroom, hfree⟩
    exact ⟨hroom, h.next_sub_lt hfree, hfree⟩

theorem Sound.reason_to_wait (h : b.Sound) (hphase : b.phase = .waiting)
    (hmore : b.exhausted = false) : b.running.length = b.limits.concurrency ∨
      ∃ job ∈ b.jobs, job.index = b.next - b.limits.capacity ∧ job.stage ≠ .retired := by
  have hrefused : b.canLaunch = false := by
    rcases (phase_eq_waiting hphase).2 with hexhausted | hrefused
    · rw [hmore] at hexhausted
      cases hexhausted
    · exact hrefused
  rw [← Bool.not_eq_true, h.canLaunch_iff_through] at hrefused
  rcases Nat.lt_or_eq_of_le h.running_le with hroom | hfull
  · right
    have hcap := b.limits.capacity_pos
    have hle : ¬ b.next < b.limits.capacity := fun hlt => hrefused ⟨hroom, .inl hlt⟩
    obtain ⟨j, job, hjob, -, hindex⟩ :=
      h.exists_job (b.next - b.limits.capacity) (by omega) (by omega)
    have hmem := List.mem_of_getElem? hjob
    refine ⟨job, hmem, hindex, fun hretired => hrefused ⟨hroom, .inr ⟨job, hmem, hindex, ?_⟩⟩⟩
    rwa [h.retired j job hjob, live_iff hjob, Decidable.not_not] at hretired
  · exact .inl hfull

/-- What admission comes to on a board that has certain limits. -/
structure Admitting (limits : Limits) (b : Board) : Prop where
  exact : b.canLaunch = true ↔ b.running.length < limits.concurrency ∧
    (b.next < limits.capacity ∨ ∃ job ∈ b.jobs, job.index = b.next - limits.capacity ∧
      job.reaped = true ∧ job.drained = true)
  cursors : b.occupant b.next = none → b.next - b.current < limits.capacity
  spares : b.canLaunch = true → ∀ job ∈ b.jobs, ¬(job.reaped = true ∧ job.drained = true) →
    b.slot job.index ≠ b.slot b.next
  waits : b.phase = .waiting → b.exhausted = false → b.running.length = limits.concurrency ∨
    ∃ job ∈ b.jobs, job.index = b.next - limits.capacity ∧ job.stage ≠ .retired

theorem Sound.admitting (h : b.Sound) (hl : b.limits = limits) : b.Admitting limits := by
  subst hl
  refine ⟨h.canLaunch_iff_through, h.next_sub_lt, fun hc job hmem hboth => ?_, h.reason_to_wait⟩
  obtain ⟨-, -, hfree⟩ := canLaunch_iff.1 hc
  obtain ⟨j, hj⟩ := List.mem_iff_getElem?.1 hmem
  rw [(h.kept j job hj).index]
  exact h.occupant_eq_none hfree ⟨job, hj, hboth⟩

end Board

namespace Run

variable {r r' : Run} {o : Holdings} {kind : StepKind} {result : Except Failure Unit}

theorem Steady.step_admits (h : r.Steady o) (hs : r.step = some (kind, result, r')) {job : Job}
    (hjoins : r'.session.board.jobs = r.session.board.jobs ++ [job]) :
    r.session.board.canLaunch = true ∧ job.index = r.session.board.next ∧
      r.session.board.occupant job.index = none ∧
      r'.session.board.occupant job.index = some r.session.board.jobs.length := by
  have hsame : r'.session.board.jobs.length ≠ r.session.board.jobs.length := by
    rw [hjoins, List.length_append, List.length_singleton]
    omega
  cases h.stepping hs with
  | exhausted | refused | noPipe | noChild => exact absurd rfl hsame
  | waited hphase hwait =>
      obtain ⟨-, hjobs⟩ := h.commands_wait hphase
      have hlength := congrArg List.length hjobs
      rw [hwait, List.length_map, List.length_map] at hlength
      exact absurd hlength hsame
  | launched command source hphase hpull =>
      have hadmitted := phase_filling_launch hphase
      have hsound := h.launched hadmitted source command (r.echo command)
      obtain ⟨-, -, hfree⟩ := Board.canLaunch_iff.1 hadmitted
      have hjob := List.append_cancel_left hjoins
      have hindex : job.index = r.session.board.next := by
        cases hjob
        rfl
      have hlive : (r.session.launched command (r.echo command)).board.Live
          r.session.board.jobs.length := by
        refine ⟨job, ?_, fun hboth => ?_⟩
        · rw [show _ = r.session.board.jobs ++ [job] from hjoins, List.getElem?_concat_length]
        · cases hjob
          cases hboth.1
      refine ⟨hadmitted, hindex, hindex ▸ hfree, ?_⟩
      rw [hindex, h.sound.board.next]
      exact hsound.sound.board.occupant_eq hlive

/-- In every state that a run reaches, and after a step of it that fails, a launch is admitted
exactly if there is a place among the running and the job one turn of the ring back, if any, is
through; and a job that joins the board takes a slot that no live job was in. -/
theorem admission_exact (c : Config) (limits : Limits) (platform : Platform)
    (rounds : List (List Event)) (handler : Handler) (wakeup : Option Descriptor) (o : Holdings)
    (stream : Bytes)
    (h : Reached (prepare c limits (Host.found platform rounds handler wakeup o) stream) r) :
    r.session.board.Admitting limits ∧
    ∀ kind result r', r.step = some (kind, result, r') →
      r'.session.board.Admitting limits ∧
      ∀ job, r'.session.board.jobs = r.session.board.jobs ++ [job] →
        r.session.board.canLaunch = true ∧ job.index = r.session.board.next ∧
        r.session.board.occupant job.index = none ∧
        r'.session.board.occupant job.index = some r.session.board.jobs.length := by
  obtain ⟨hsteady, -⟩ := steady_of_found h
  obtain ⟨hsound, hlimits⟩ := sound_of_found h
  refine ⟨hsound.board.admitting hlimits, fun kind result r' hs => ?_⟩
  obtain ⟨hsound', hlimits'⟩ := sound_of_step h hs
  exact ⟨hsound'.board.admitting hlimits', fun job hjoins => hsteady.step_admits hs hjoins⟩

/-- With a place for one running job and two slots: two jobs have ended, and the first of them,
whose output is not at its end, keeps the third from its slot while nobody runs. -/
theorem admission_exact_slot_held :
    let r₀ := prepare ⟨1, some 2, true, none, []⟩ ⟨1, 2, by decide, by decide⟩
      (Host.found {} [[.finish 0 0 true], [.finish 1 0 true]] .default none {})
      [0x61, 0x0a, 0x62, 0x0a, 0x63, 0x0a]
    ∃ r, Reached r₀ r ∧ r.session.board.phase = .waiting ∧ r.session.board.exhausted = false ∧
      r.session.board.running = [] ∧ r.session.board.next = 2 ∧
      ∃ job ∈ r.session.board.jobs, job.index = 0 ∧ job.stage ≠ .retired := by
  intro r₀
  have hstart : Reached r₀ _ := .start (n := ⟨0, .default, none⟩) rfl
  have hfirst := hstart.launch (by decide +kernel) (by decide +kernel)
  have hsecond := (hfirst.wait (by decide +kernel) (by decide +kernel)).launch
    (by decide +kernel) (by decide +kernel)
  have hheld := hsecond.wait (by decide +kernel) (by decide +kernel)
  obtain ⟨hadmitting, -⟩ := admission_exact ⟨1, some 2, true, none, []⟩
    ⟨1, 2, by decide, by decide⟩ {} [[.finish 0 0 true], [.finish 1 0 true]] .default none {}
    [0x61, 0x0a, 0x62, 0x0a, 0x63, 0x0a] hheld
  refine ⟨_, hheld, by decide +kernel, by decide +kernel, by decide +kernel, by decide +kernel, ?_⟩
  rcases hadmitting.waits (by decide +kernel) (by decide +kernel) with
    hfull | ⟨job, hjob, hindex, h⟩
  · exact absurd hfull (by decide +kernel)
  · exact ⟨job, hjob, hindex.trans (by decide +kernel), h⟩

end Run

end OrderedJobs
