import OrderedJobs.Proofs.Reached

/-! # The ring and the cursors

What a maintainer may rely on about the board of a run, spelled out field by field
(`Board.Ordered`), in every state that a run reaches and also after the step that fails, if one does
(`Run.board_ordered`).  In particular no live job is ever overwritten in the ring, the active job is
the one at the cursor, and the guards of the book-keeping are never the reason why a run ends. -/

namespace OrderedJobs

namespace Board

/-- The ring, the cursors, the jobs and the counters of a board that has certain limits. -/
structure Ordered (limits : Limits) (b : Board) : Prop where
  limits_eq : b.limits = limits
  current_nonneg : 0 ≤ b.current
  current_le : b.current ≤ b.next
  next_le : b.next ≤ b.current + limits.capacity
  slots : b.ring.length = limits.capacity
  occupied : ∀ s j : Nat, b.ring[s]? = some (some j) ↔ ∃ job, b.jobs[j]? = some job ∧
    ¬(job.reaped = true ∧ job.drained = true) ∧ job.index % (limits.capacity : Int) = s
  recent : ∀ s j : Nat, b.ring[s]? = some (some j) →
    ∃ job, b.jobs[j]? = some job ∧ b.next - limits.capacity ≤ job.index ∧ job.index < b.next
  distinct : ∀ s t j : Nat, b.ring[s]? = some (some j) → b.ring[t]? = some (some j) → s = t
  index : ∀ (j : Nat) (job : Job), b.jobs[j]? = some job → job.index = j
  behind : ∀ (j : Nat) (job : Job), b.jobs[j]? = some job → job.index < b.current →
    job.drained = true ∧ job.output = none
  ahead : ∀ (j : Nat) (job : Job), b.jobs[j]? = some job → b.current ≤ job.index →
    job.index < b.next ∧ job.drained = false ∧ job.output = some j
  running : ∀ (pid : Int) (j : Nat), (pid, j) ∈ b.running ↔
    ∃ job, b.jobs[j]? = some job ∧ job.pid = some pid ∧ job.reaped = false
  pids : (b.running.map Prod.fst).Nodup
  started : b.started = b.next
  finished : b.next = b.finished + b.running.length
  limit : b.running.length ≤ limits.concurrency
  active : b.current < b.next →
    ∃ j job, b.active = some j ∧ b.jobs[j]? = some job ∧ job.index = b.current

variable {b : Board} {limits : Limits}

theorem slot_eq_iff (b : Board) (j s : Nat) :
    b.slot j = s ↔ (j : Int) % (b.limits.capacity : Int) = s := by
  have hcap := b.limits.capacity_pos
  have hnn := Int.emod_nonneg (j : Int) (b := b.limits.capacity) (by omega)
  unfold slot
  omega

theorem Sound.ordered (h : b.Sound) (hl : b.limits = limits) : b.Ordered limits := by
  subst hl
  have hindex : ∀ (j : Nat) (job : Job), b.jobs[j]? = some job → job.index = j :=
    fun j job hj => (h.kept j job hj).index
  constructor
  case limits_eq => rfl
  case current_nonneg => exact h.current_nonneg
  case current_le => exact h.current_le
  case next_le => exact h.next_le
  case slots => exact h.slots
  case occupied =>
    intro s j
    rw [h.occupied, slot_eq_iff]
    constructor
    · rintro ⟨⟨job, hj, hboth⟩, hs⟩
      exact ⟨job, hj, hboth, by rw [hindex j job hj, hs]⟩
    · rintro ⟨job, hj, hboth, hs⟩
      rw [hindex j job hj] at hs
      exact ⟨⟨job, hj, hboth⟩, hs⟩
  case recent =>
    intro s j hs
    obtain ⟨hlive, -⟩ := (h.occupied s j).1 hs
    obtain ⟨job, hj, -⟩ := hlive
    have hrecent := h.recent j ((h.occupied s j).1 hs).1
    have hlt := (List.getElem?_eq_some_iff.1 hj).1
    have hnext := h.next
    refine ⟨job, hj, ?_, ?_⟩
    · rw [hindex j job hj]
      omega
    · rw [hindex j job hj]
      omega
  case distinct =>
    intro s t j hs ht
    exact ((h.occupied s j).1 hs).2.symm.trans ((h.occupied t j).1 ht).2
  case index => exact hindex
  case behind =>
    intro j job hj hlt
    have hkept := h.kept j job hj
    rw [hkept.index] at hlt
    exact ⟨hkept.drained.2 hlt, by rw [hkept.output, if_pos hlt]⟩
  case ahead =>
    intro j job hj hle
    have hkept := h.kept j job hj
    have hlt := (List.getElem?_eq_some_iff.1 hj).1
    have hnext := h.next
    rw [hkept.index] at hle ⊢
    exact ⟨by omega, hkept.undrained (by omega), by rw [hkept.output, if_neg (by omega)]⟩
  case running =>
    intro pid j
    rw [h.mem_running, mem_unreaped]
    constructor
    · rintro ⟨rfl, job, hj, hr⟩
      exact ⟨job, hj, (h.kept j job hj).pid, hr⟩
    · rintro ⟨job, hj, hpid, hr⟩
      rw [(h.kept j job hj).pid] at hpid
      exact ⟨(Option.some.inj hpid).symm, job, hj, hr⟩
  case pids => exact h.nodup_running
  case started => exact h.started
  case finished => rw [← h.started, ← h.finished]
  case limit => exact h.running_le
  case active =>
    intro hlt
    have hnn := h.current_nonneg
    have hlen : b.current.toNat < b.jobs.length := by
      have := h.next
      omega
    have hj := List.getElem?_eq_getElem hlen
    refine ⟨_, _, h.active_eq hlt, hj, ?_⟩
    rw [hindex _ _ hj]
    omega

end Board

namespace Run

/-- In every state that a run reaches, and after a step of it that fails, ring, cursors and counters
are in order; and no guard of the book-keeping makes a step fail. -/
theorem board_ordered (c : Config) (limits : Limits) (platform : Platform)
    (rounds : List (List Event)) (handler : Handler) (stream : Bytes) {r : Run}
    (h : Reached (prepare c limits (Host.fresh platform rounds handler) stream) r) :
    r.session.board.Ordered limits ∧
    ∀ kind e r', r.step = some (kind, .error e, r') →
      r'.session.board.Ordered limits ∧
      (∀ job current, e ≠ .notActive job current) ∧
      (∀ job reaped drained, e ≠ .notRetirable job reaped drained) ∧
      ∀ job slot, e ≠ .notOccupant job slot := by
  obtain ⟨hsteady, hfixed⟩ := steady_of_reached h
  have hlimits : r.session.board.limits = limits := hfixed.limits
  refine ⟨hsteady.sound.board.ordered hlimits, fun kind e r' hs => ?_⟩
  have hstep := hsteady.step hs
  refine ⟨hstep.sound.board.ordered (hstep.fixed.limits.trans hlimits), ?_⟩
  cases hstep.external e rfl with
  | badLine fault line => simp
  | system operation error => simp

theorem board_ordered_two_launched :
    let limits : Limits := ⟨2, 3, by decide, by decide⟩
    let r₀ := prepare ⟨2, some 3, false, none, []⟩ limits
      (Host.fresh {} [[.finish 0 0 true]] .default) [0x61, 0x0a, 0x62, 0x0a]
    ∃ r, Reached r₀ r ∧ r.session.board.ring = [some 0, some 1, none] ∧
      r.session.board.Ordered limits := by
  intro limits r₀
  have hstart : Reached r₀ _ := .start (n := ⟨0, .default, none⟩) rfl
  have hfirst : Reached r₀ _ := hstart.step (step_of_filling rfl)
  have hsecond : Reached r₀ _ := hfirst.step (step_of_filling rfl)
  exact ⟨_, hsecond, rfl, (board_ordered _ _ _ _ _ _ hsecond).1⟩

end Run

end OrderedJobs
