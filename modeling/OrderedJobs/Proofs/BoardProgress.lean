import OrderedJobs.Proofs.BoardSound

/-! # Reaping and draining on a sound board

Reaping a job and draining the job at the cursor change one job each, and the one that comes second
retires it (`Board.settled`).  In between, the job is still in the ring though it is not live any
more; `Counts.settled_sound` brings both together again.  So reaping (`Sound.reap`) and draining
(`Sound.drain`) keep a board sound, and the guards of a retirement never hold
(`Sound.retire_recordExit`, `Sound.retire_recordDrained`). -/

namespace OrderedJobs.Board

variable {b : Board} {live : Nat → Prop} {j : Nat} {job : Job}

/-! ### Changing one job -/

section modify

variable {b' : Board} {f : Job → Job}

theorem getElem?_modify_cases {jobs : List Job} {k : Nat}
    (h : (jobs.modify j f)[k]? = some job) :
    ∃ old, jobs[k]? = some old ∧ job = if j = k then f old else old := by
  rw [List.getElem?_modify] at h
  obtain ⟨old, hold, heq⟩ := Option.map_eq_some_iff.1 h
  exact ⟨old, hold, heq.symm⟩

theorem map_modify {α : Type} {g : Job → α} (hf : ∀ job, g (f job) = g job) (jobs : List Job)
    (k : Nat) : ((jobs.modify j f)[k]?).map g = (jobs[k]?).map g := by
  rw [List.getElem?_modify]
  cases jobs[k]? with
  | none => rfl
  | some job =>
    by_cases hk : j = k
    · simp [hk, hf]
    · simp [hk]

theorem unreaped_congr (hlen : b'.jobs.length = b.jobs.length)
    (hr : ∀ k : Nat, (b'.jobs[k]?).map Job.reaped = (b.jobs[k]?).map Job.reaped) :
    b'.unreaped = b.unreaped := by
  have hany : ∀ (jobs : List Job) (k : Nat), ((jobs[k]?).any fun job => !job.reaped) =
      ((jobs[k]?).map Job.reaped).any (! ·) := by
    intro jobs k
    cases jobs[k]? <;> rfl
  unfold unreaped
  rw [hlen]
  refine List.filter_congr fun k _ => ?_
  rw [hany, hany, hr]

theorem live_modify (hjobs : b'.jobs = b.jobs.modify j f) (hjob : b.jobs[j]? = some job)
    (hlive : b.Live j) (k : Nat) :
    b'.Live k ↔ b.Live k ∧ (k = j → ¬((f job).reaped = true ∧ (f job).drained = true)) := by
  constructor
  · rintro ⟨job', hk, hnot⟩
    rw [hjobs] at hk
    obtain ⟨old, hold, rfl⟩ := getElem?_modify_cases hk
    by_cases hjk : j = k
    · subst hjk
      rw [hjob] at hold
      cases hold
      rw [if_pos rfl] at hnot
      exact ⟨hlive, fun _ => hnot⟩
    · rw [if_neg hjk] at hnot
      exact ⟨⟨old, hold, hnot⟩, fun heq => absurd heq.symm hjk⟩
  · rintro ⟨⟨old, hold, hnot⟩, himp⟩
    refine ⟨if j = k then f old else old, ?_, ?_⟩
    · rw [hjobs, List.getElem?_modify, hold]
      rfl
    · by_cases hjk : j = k
      · subst hjk
        rw [hjob] at hold
        cases hold
        rw [if_pos rfl]
        exact himp rfl
      · rw [if_neg hjk]
        exact hnot

/-- A change that leaves the ring and the retired jobs alone. -/
theorem Rings.modify (h : b.Rings live) (hjobs : b'.jobs = b.jobs.modify j f)
    (hring : b'.ring = b.ring) (hlimits : b'.limits = b.limits) (hnext : b'.next = b.next)
    (hf : ∀ job, b.jobs[j]? = some job → ((f job).stage = .retired ↔ job.stage = .retired)) :
    b'.Rings live where
  slots := by rw [hring, hlimits, h.slots]
  occupied := by
    intro s k
    have hslot : b'.slot k = b.slot k := by unfold slot; rw [hlimits]
    rw [hring, hslot]
    exact h.occupied s k
  recent := by rw [hnext, hlimits]; exact h.recent
  retired := by
    intro k job' hk
    rw [hjobs] at hk
    obtain ⟨old, hold, rfl⟩ := getElem?_modify_cases hk
    by_cases hjk : j = k
    · subst hjk
      rw [if_pos rfl, hf old hold]
      exact h.retired _ _ hold
    · rw [if_neg hjk]
      exact h.retired _ _ hold

/-- A change of one job that leaves the cursors and the counters alone. -/
theorem Counts.modify (h : b.Counts) (hf : ∀ job, (f job).reaped = job.reaped)
    (hk : ∀ job, job.Kept b.current j → (f job).Kept b.current j) : (b.updateJob j f).Counts where
  kept := by
    intro k job' hjob
    obtain ⟨old, hold, rfl⟩ := getElem?_modify_cases hjob
    have hkept := h.kept k old hold
    by_cases hjk : j = k
    · subst hjk
      rw [if_pos rfl]
      exact hk old hkept
    · rw [if_neg hjk]
      exact hkept
  next := by
    rw [updateJob, List.length_modify]
    exact h.next
  started := h.started
  finished := h.finished
  current_nonneg := h.current_nonneg
  current_le := h.current_le
  next_le := h.next_le
  running := by
    have hu : (b.updateJob j f).unreaped = b.unreaped :=
      unreaped_congr (List.length_modify ..) fun k => map_modify hf b.jobs k
    rw [hu]
    exact h.running
  running_le := h.running_le

end modify

/-- The job at the cursor is being drained. -/
theorem Sound.startDraining (h : b.Sound) (hlt : ¬ (j : Int) < b.current) :
    (b.updateJob j fun job => { job with stage := .draining }).Sound := by
  have hstage : ∀ job, b.jobs[j]? = some job →
      (Stage.draining = .retired ↔ job.stage = .retired) := by
    intro job hj
    have hlive : b.Live j := ⟨job, hj, fun hboth => hlt ((h.kept j job hj).drained.1 hboth.2)⟩
    constructor
    · intro hs; cases hs
    · intro hs; exact absurd hlive ((h.retired j job hj).1 hs)
  have hlive : (b.updateJob j fun job => { job with stage := .draining }).Live = b.Live := by
    funext k
    unfold Live updateJob
    rw [List.getElem?_modify]
    cases b.jobs[k]? with
    | none => simp
    | some job => by_cases hjk : j = k <;> simp [hjk]
  refine ⟨h.toCounts.modify (fun _ => rfl) fun job hk => ?_, ?_⟩
  · exact ⟨hk.index, hk.pid, hk.drained, hk.output⟩
  rw [hlive]
  exact h.toRings.modify rfl rfl rfl rfl hstage

/-! ### Retiring -/

/-- The board after a job has left the ring. -/
def vacate (b : Board) (j : Nat) (index : Int) : Board :=
  (b.setSlot (b.slot index) none).updateJob j fun job => { job with stage := .retired }

/-- The board after a job has left the ring, if it is time for it. -/
def settled (b : Board) (j : Nat) : Board :=
  match b.jobs[j]? with
  | some job => if job.reaped && job.drained then b.vacate j job.index else b
  | none => b

/-- Neither guard of a retirement holds for a job that is reaped and drained and still in its
slot. -/
theorem retire_eq (hj : b.jobs[j]? = some job) (hr : job.reaped = true) (hd : job.drained = true)
    (ho : b.occupant job.index = some j) : b.retire j = .ok (b.settled j) := by
  unfold retire settled
  rw [hj]
  simp [hr, hd, ho, vacate]

theorem settled_eq_vacate (hj : b.jobs[j]? = some job)
    (hboth : job.reaped = true ∧ job.drained = true) : b.settled j = b.vacate j job.index := by
  unfold settled
  rw [hj]
  simp [hboth]

theorem settled_eq_self (hj : b.jobs[j]? = some job)
    (hboth : ¬(job.reaped = true ∧ job.drained = true)) : b.settled j = b := by
  unfold settled
  rw [hj]
  simp only [Bool.and_eq_true, if_neg hboth]

theorem settled_cases (b : Board) (j : Nat) :
    b.settled j = b ∨ ∃ index, b.settled j = b.vacate j index := by
  unfold settled
  split
  · split
    · exact .inr ⟨_, rfl⟩
    · exact .inl rfl
  · exact .inl rfl

@[simp] theorem settled_limits (b : Board) (j : Nat) : (b.settled j).limits = b.limits := by
  rcases b.settled_cases j with h | ⟨_, h⟩ <;> rw [h]; rfl

@[simp] theorem settled_current (b : Board) (j : Nat) : (b.settled j).current = b.current := by
  rcases b.settled_cases j with h | ⟨_, h⟩ <;> rw [h]; rfl

@[simp] theorem settled_next (b : Board) (j : Nat) : (b.settled j).next = b.next := by
  rcases b.settled_cases j with h | ⟨_, h⟩ <;> rw [h]; rfl

@[simp] theorem settled_running (b : Board) (j : Nat) : (b.settled j).running = b.running := by
  rcases b.settled_cases j with h | ⟨_, h⟩ <;> rw [h]; rfl

@[simp] theorem settled_exitCode (b : Board) (j : Nat) : (b.settled j).exitCode = b.exitCode := by
  rcases b.settled_cases j with h | ⟨_, h⟩ <;> rw [h]; rfl

@[simp] theorem settled_finished (b : Board) (j : Nat) : (b.settled j).finished = b.finished := by
  rcases b.settled_cases j with h | ⟨_, h⟩ <;> rw [h]; rfl

@[simp] theorem settled_started (b : Board) (j : Nat) : (b.settled j).started = b.started := by
  rcases b.settled_cases j with h | ⟨_, h⟩ <;> rw [h]; rfl

@[simp] theorem settled_exhausted (b : Board) (j : Nat) :
    (b.settled j).exhausted = b.exhausted := by
  rcases b.settled_cases j with h | ⟨_, h⟩ <;> rw [h]; rfl

@[simp] theorem settled_length (b : Board) (j : Nat) :
    (b.settled j).jobs.length = b.jobs.length := by
  rcases b.settled_cases j with h | ⟨_, h⟩ <;> rw [h]
  simp [vacate, updateJob, setSlot]

theorem settled_map {α : Type} {g : Job → α} (hg : ∀ job, g { job with stage := .retired } = g job)
    (b : Board) (j k : Nat) : ((b.settled j).jobs[k]?).map g = (b.jobs[k]?).map g := by
  rcases b.settled_cases j with h | ⟨_, h⟩ <;> rw [h]
  exact map_modify hg b.jobs k

@[simp] theorem settled_reaped (b : Board) (j k : Nat) :
    ((b.settled j).jobs[k]?).map Job.reaped = (b.jobs[k]?).map Job.reaped :=
  settled_map (fun _ => rfl) b j k

theorem settled_command (b : Board) (j k : Nat) :
    ((b.settled j).jobs[k]?).map Job.command = (b.jobs[k]?).map Job.command :=
  settled_map (fun _ => rfl) b j k

theorem Rings.vacate (h : b.Rings live) (hj : live j) (hjob : b.jobs[j]? = some job) :
    (b.vacate j j).Rings fun k => live k ∧ k ≠ j where
  slots := by
    unfold Board.vacate updateJob setSlot
    rw [List.length_set]
    exact h.slots
  occupied := by
    intro s k
    show (b.ring.set (b.slot j) none)[s]? = some (some k) ↔ (live k ∧ k ≠ j) ∧ b.slot k = s
    rw [List.getElem?_set]
    by_cases hs : b.slot j = s
    · -- The slot held `j`, and nobody else can be in it.
      subst hs
      rw [if_pos rfl]
      constructor
      · intro heq
        split at heq <;> cases heq
      · rintro ⟨⟨hk, hne⟩, hsk⟩
        have h₁ := (h.occupied (b.slot j) j).2 ⟨hj, rfl⟩
        have h₂ := (h.occupied (b.slot j) k).2 ⟨hk, hsk⟩
        rw [h₁] at h₂
        cases h₂
        exact absurd rfl hne
    · rw [if_neg hs, h.occupied]
      constructor
      · rintro ⟨hk, hsk⟩
        refine ⟨⟨hk, ?_⟩, hsk⟩
        rintro rfl
        exact hs hsk
      · rintro ⟨⟨hk, -⟩, hsk⟩
        exact ⟨hk, hsk⟩
  recent := fun k hk => h.recent k hk.1
  retired := by
    intro k job' hk
    obtain ⟨old, hold, rfl⟩ := getElem?_modify_cases hk
    by_cases hjk : j = k
    · subst hjk
      rw [if_pos rfl]
      constructor
      · rintro - ⟨-, hne⟩
        exact hne rfl
      · intro _
        rfl
    · rw [if_neg hjk, h.retired k old hold]
      constructor
      · rintro hdead ⟨hlive, -⟩
        exact hdead hlive
      · intro hdead hlive
        exact hdead ⟨hlive, fun heq => hjk heq.symm⟩

/-- A board whose ring still holds the job `j`, which may be through, is sound once that job is
settled. -/
theorem Counts.settled_sound (hc : b.Counts) (hr : b.Rings live) (hj : live j)
    (hjob : b.jobs[j]? = some job)
    (hlive : ∀ k, b.Live k ↔ live k ∧ (k = j → ¬(job.reaped = true ∧ job.drained = true))) :
    (b.settled j).Sound := by
  by_cases hboth : job.reaped = true ∧ job.drained = true
  · have hindex := (hc.kept j job hjob).index
    rw [settled_eq_vacate hjob hboth, hindex]
    have hcounts : (b.vacate j j).Counts :=
      Counts.modify (b := b.setSlot (b.slot j) none)
        ⟨hc.kept, hc.next, hc.started, hc.finished, hc.current_nonneg, hc.current_le, hc.next_le,
          hc.running, hc.running_le⟩
        (fun _ => rfl) fun job hk => ⟨hk.index, hk.pid, hk.drained, hk.output⟩
    have hlive' : (b.vacate j j).Live = fun k => live k ∧ k ≠ j := by
      funext k
      have hsame : (b.vacate j j).Live k ↔ b.Live k := by
        unfold Live Board.vacate updateJob setSlot
        rw [List.getElem?_modify]
        cases b.jobs[k]? with
        | none => simp
        | some job => by_cases hjk : j = k <;> simp [hjk]
      rw [eq_iff_iff, hsame, hlive]
      constructor
      · rintro ⟨hk, hnot⟩
        exact ⟨hk, fun heq => hnot heq hboth⟩
      · rintro ⟨hk, hne⟩
        exact ⟨hk, fun heq => absurd heq hne⟩
    refine ⟨hcounts, ?_⟩
    rw [hlive']
    exact hr.vacate hj hjob
  · rw [settled_eq_self hjob hboth]
    have hlive' : b.Live = live := by
      funext k
      rw [eq_iff_iff, hlive]
      exact ⟨And.left, fun hk => ⟨hk, fun _ => hboth⟩⟩
    refine ⟨hc, ?_⟩
    rw [hlive']
    exact hr

/-! ### Reaping -/

theorem unreaped_recordExit (pid : Int) (status : WaitStatus) :
    (b.recordExit pid j status).unreaped = b.unreaped.filter (· != j) := by
  unfold unreaped
  rw [List.filter_filter]
  simp only [recordExit, List.length_modify]
  refine List.filter_congr fun k _ => ?_
  rw [List.getElem?_modify]
  cases b.jobs[k]? with
  | none => simp
  | some job =>
    by_cases hjk : j = k
    · simp [hjk]
    · have hkj : ¬ k = j := fun heq => hjk heq.symm
      simp [hjk, hkj]

theorem Counts.running_recordExit (h : b.Counts) (status : WaitStatus) :
    (b.recordExit (Host.pidOf j) j status).running =
      (b.recordExit (Host.pidOf j) j status).unreaped.map fun k => (Host.pidOf k, k) := by
  show b.running.filter (·.1 != Host.pidOf j) = _
  rw [unreaped_recordExit, h.running, List.filter_map]
  congr 1
  refine List.filter_congr fun k _ => ?_
  show (Host.pidOf k != Host.pidOf j) = (k != j)
  rw [Bool.eq_iff_iff, bne_iff_ne, bne_iff_ne, Ne, Ne, pidOf_inj]

theorem Counts.length_recordExit (h : b.Counts) (hj : j ∈ b.unreaped) (status : WaitStatus) :
    (b.recordExit (Host.pidOf j) j status).running.length + 1 = b.running.length := by
  rw [h.running_recordExit, List.length_map, unreaped_recordExit,
    ← b.nodup_unreaped.erase_eq_filter, List.length_erase_of_mem hj, h.running, List.length_map]
  have := List.length_pos_of_mem hj
  omega

theorem Counts.recordExit (h : b.Counts) (hj : j ∈ b.unreaped) (status : WaitStatus) :
    (b.recordExit (Host.pidOf j) j status).Counts where
  kept := by
    intro k job' hjob
    obtain ⟨old, hold, rfl⟩ := getElem?_modify_cases hjob
    have hkept := h.kept k old hold
    by_cases hjk : j = k
    · rw [if_pos hjk]
      exact ⟨hkept.index, hkept.pid, hkept.drained, hkept.output⟩
    · rw [if_neg hjk]
      exact hkept
  next := by
    rw [Board.recordExit, List.length_modify]
    exact h.next
  started := h.started
  finished := by
    have := h.length_recordExit hj status
    have := h.finished
    show b.finished + 1 + _ = b.started
    omega
  current_nonneg := h.current_nonneg
  current_le := h.current_le
  next_le := h.next_le
  running := h.running_recordExit status
  running_le := by
    have := h.length_recordExit hj status
    have := h.running_le
    show _ ≤ b.limits.concurrency
    omega

theorem getElem?_recordExit (hj : b.jobs[j]? = some job) (pid : Int) (status : WaitStatus) :
    (b.recordExit pid j status).jobs[j]? = some { job with reaped := true } := by
  rw [Board.recordExit, List.getElem?_modify, hj]
  simp

/-- The board after the end of a child has been accounted for. -/
theorem Sound.reap (h : b.Sound) (hj : j ∈ b.unreaped) (status : WaitStatus) :
    ((b.recordExit (Host.pidOf j) j status).settled j).Sound := by
  obtain ⟨job, hjob, hr⟩ := mem_unreaped.1 hj
  have hlive : b.Live j := ⟨job, hjob, by simp [hr]⟩
  have hrings : (b.recordExit (Host.pidOf j) j status).Rings b.Live :=
    h.toRings.modify rfl rfl rfl rfl fun _ _ => Iff.rfl
  exact (h.toCounts.recordExit hj status).settled_sound hrings hlive
    (getElem?_recordExit hjob _ _)
    (live_modify (f := fun job => { job with reaped := true }) rfl hjob hlive)

/-- Accounting for an exit retires the job at once if its output is drained. -/
theorem Sound.retire_recordExit (h : b.Sound) (hj : b.jobs[j]? = some job)
    (hr : job.reaped = false) (hd : job.drained = true) (status : WaitStatus) :
    (b.recordExit (Host.pidOf j) j status).retire j =
      .ok ((b.recordExit (Host.pidOf j) j status).settled j) := by
  have hlive : b.Live j := ⟨job, hj, by simp [hr]⟩
  refine retire_eq (getElem?_recordExit hj _ _) rfl hd ?_
  rw [(h.kept j job hj).index]
  exact h.occupant_eq hlive

/-! ### Draining -/

theorem Counts.recordDrained (h : b.Counts) (hj : (j : Int) = b.current)
    (hlt : b.current < b.next) : (b.recordDrained j).Counts where
  kept := by
    intro k job' hjob
    obtain ⟨old, hold, rfl⟩ := getElem?_modify_cases hjob
    have hkept := h.kept k old hold
    show Job.Kept (b.current + 1) k _
    by_cases hjk : j = k
    · subst hjk
      rw [if_pos rfl]
      have hlt' : (j : Int) < b.current + 1 := by omega
      exact ⟨hkept.index, hkept.pid, iff_of_true rfl hlt', by rw [if_pos hlt']⟩
    · rw [if_neg hjk]
      have hiff : (k : Int) < b.current + 1 ↔ (k : Int) < b.current := by omega
      refine ⟨hkept.index, hkept.pid, hkept.drained.trans hiff.symm, ?_⟩
      simp only [hkept.output, hiff]
  next := by
    rw [Board.recordDrained, updateJob, List.length_modify]
    exact h.next
  started := h.started
  finished := h.finished
  current_nonneg := by
    have := h.current_nonneg
    show 0 ≤ b.current + 1
    omega
  current_le := by
    show b.current + 1 ≤ b.next
    omega
  next_le := by
    have := h.next_le
    show b.next ≤ b.current + 1 + b.limits.capacity
    omega
  running := by
    have hu : (b.recordDrained j).unreaped = b.unreaped :=
      unreaped_congr (List.length_modify ..) fun k =>
        map_modify (f := fun job => { job with output := none, drained := true }) (fun _ => rfl)
          b.jobs k
    rw [hu]
    exact h.running
  running_le := h.running_le

theorem Sound.live_current (h : b.Sound) (hj : (j : Int) = b.current)
    (hjob : b.jobs[j]? = some job) : b.Live j := by
  refine ⟨job, hjob, fun hboth => ?_⟩
  have := (h.kept j job hjob).drained.1 hboth.2
  omega

theorem getElem?_recordDrained (hj : b.jobs[j]? = some job) :
    (b.recordDrained j).jobs[j]? = some { job with output := none, drained := true } := by
  rw [Board.recordDrained, updateJob, List.getElem?_modify, hj]
  simp

/-- The board after the output of the active job has come to its end. -/
theorem Sound.drain (h : b.Sound) (hj : (j : Int) = b.current) (hlt : b.current < b.next) :
    ((b.recordDrained j).settled j).Sound := by
  have hlen : j < b.jobs.length := by
    have := h.next
    omega
  have hjob := List.getElem?_eq_getElem hlen
  have hlive := h.live_current hj hjob
  have hrings : (b.recordDrained j).Rings b.Live :=
    h.toRings.modify rfl rfl rfl rfl fun _ _ => Iff.rfl
  exact (h.toCounts.recordDrained hj hlt).settled_sound hrings hlive
    (getElem?_recordDrained hjob)
    (live_modify (f := fun job => { job with output := none, drained := true }) rfl hjob hlive)

/-- The end of the output of a reaped job retires it at once. -/
theorem Sound.retire_recordDrained (h : b.Sound) (hj : (j : Int) = b.current)
    (hjob : b.jobs[j]? = some job) (hr : job.reaped = true) :
    (b.recordDrained j).retire j = .ok ((b.recordDrained j).settled j) := by
  refine retire_eq (getElem?_recordDrained hjob) hr rfl ?_
  rw [(h.kept j job hjob).index]
  exact h.occupant_eq (h.live_current hj hjob)

end OrderedJobs.Board
