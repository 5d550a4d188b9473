import OrderedJobs.Proofs.BoardProgress

/-! # Exchanging changes of a board

The end of a child and the end of a job's output may come in either order.  Both change a job, and
the later of the two on one job frees its slot, so they are no changes of separate parts of a board.
Still they can be exchanged (`recordDrained_recordExit_comm`): on one job, whichever comes first
does not settle it; and settling a job can be exchanged with all that leaves this job alone
(`settled_comm`). -/

namespace OrderedJobs.Board

variable {b : Board} {j k : Nat} {job : Job} {pid : Int} {status : WaitStatus}

/-! ### Settling a job beside other changes -/

/-- Settling a job can be exchanged with a change that neither looks at it nor at its slot. -/
theorem settled_comm {f : Board → Board} (hjob : (f b).jobs[k]? = b.jobs[k]?)
    (hvacate : ∀ index, (f b).vacate k index = f (b.vacate k index)) :
    (f b).settled k = f (b.settled k) := by
  unfold settled
  rw [hjob]
  cases b.jobs[k]? with
  | none => rfl
  | some job =>
      dsimp only
      split
      · exact hvacate job.index
      · rfl

section other

variable (hne : j ≠ k)
include hne

theorem vacate_comm (b : Board) (index index' : Int) :
    (b.vacate j index).vacate k index' = (b.vacate k index').vacate j index := by
  have hring : (b.ring.set (b.slot index) none).set (b.slot index') none =
      (b.ring.set (b.slot index') none).set (b.slot index) none := by
    by_cases hslot : b.slot index = b.slot index'
    · rw [hslot]
    · exact List.set_comm none none hslot
  unfold vacate updateJob setSlot slot
  dsimp only
  rw [List.modify_modify_ne _ _ _ hne]
  congr 1

theorem updateJob_vacate_comm (b : Board) (f : Job → Job) (index : Int) :
    (b.updateJob j f).vacate k index = (b.vacate k index).updateJob j f := by
  unfold vacate updateJob setSlot slot
  dsimp only
  rw [List.modify_modify_ne _ _ _ hne]

theorem settled_updateJob (b : Board) (f : Job → Job) :
    (b.updateJob j f).settled k = (b.settled k).updateJob j f :=
  settled_comm (f := (updateJob · j f)) (List.getElem?_modify_ne _ _ hne)
    (updateJob_vacate_comm hne b f)

theorem settled_recordDrained (b : Board) :
    (b.recordDrained j).settled k = (b.settled k).recordDrained j := by
  refine settled_comm (f := (recordDrained · j)) (List.getElem?_modify_ne _ _ hne) fun index => ?_
  exact congrArg (fun b' : Board => { b' with current := b.current + 1 })
    (updateJob_vacate_comm hne b (fun job => { job with output := none, drained := true }) index)

theorem settled_recordExit (b : Board) (pid : Int) (status : WaitStatus) :
    (b.recordExit pid j status).settled k = (b.settled k).recordExit pid j status := by
  refine settled_comm (f := (recordExit · pid j status)) (List.getElem?_modify_ne _ _ hne)
    fun index => ?_
  exact congrArg (fun b' : Board => { b' with
      running := (b.unregister pid).running
      finished := b.finished + 1
      exitCode := WaitStatus.fold b.exitCode status })
    (updateJob_vacate_comm hne b (fun job => { job with reaped := true }) index)

theorem settled_settled (b : Board) : (b.settled j).settled k = (b.settled k).settled j := by
  refine settled_comm (f := (settled · j)) ?_ fun index => ?_
  · rcases b.settled_cases j with heq | ⟨index, heq⟩
    · rw [heq]
    · rw [heq]
      exact List.getElem?_modify_ne _ _ hne
  · exact (settled_comm (f := (vacate · k index)) (List.getElem?_modify_ne _ _ hne.symm)
      fun index' => vacate_comm hne.symm b index index').symm

end other

/-! ### Reaping beside draining -/

/-- The end of a child can be exchanged with a change of a job that leaves alone whether it was
reaped. -/
theorem updateJob_recordExit {f : Job → Job}
    (hf : ∀ job, f { job with reaped := true } = { f job with reaped := true }) (b : Board)
    (pid : Int) (j k : Nat) (status : WaitStatus) :
    (b.recordExit pid k status).updateJob j f = (b.updateJob j f).recordExit pid k status := by
  unfold recordExit unregister updateJob
  dsimp only
  by_cases hne : k = j
  · rw [hne, List.modify_modify_eq, List.modify_modify_eq]
    congr 2
    exact funext hf
  · rw [List.modify_modify_ne _ _ _ hne]

theorem recordDrained_recordExit (b : Board) (pid : Int) (j k : Nat) (status : WaitStatus) :
    (b.recordExit pid k status).recordDrained j = (b.recordDrained j).recordExit pid k status := by
  unfold recordDrained
  rw [updateJob_recordExit fun _ => rfl]
  rfl

/-- A job whose output is still to be copied is not settled by the end of a child. -/
theorem settled_recordExit_self (hj : b.jobs[j]? = some job) (hd : job.drained = false) :
    (b.recordExit pid j status).settled j = b.recordExit pid j status :=
  settled_eq_self (getElem?_recordExit hj _ _) (by simp [hd])

theorem settled_recordDrained_self (hj : b.jobs[j]? = some job) (hr : job.reaped = false) :
    (b.recordDrained j).settled j = b.recordDrained j :=
  settled_eq_self (getElem?_recordDrained hj) (by simp [hr])

theorem updateJob_recordExit_comm (hj : b.jobs[j]? = some job) (hd : job.drained = false)
    (k : Nat) : ((b.recordExit pid k status).settled k).updateJob j
        (fun job => { job with stage := .draining }) =
      ((b.updateJob j fun job => { job with stage := .draining }).recordExit pid k
        status).settled k := by
  by_cases hne : j = k
  · subst hne
    have hj' : (b.updateJob j fun job => { job with stage := .draining }).jobs[j]? =
        some { job with stage := .draining } := by
      rw [updateJob, List.getElem?_modify, hj]
      simp
    rw [settled_recordExit_self hj hd, settled_recordExit_self hj' hd,
      updateJob_recordExit fun _ => rfl]
  · rw [← settled_updateJob hne, updateJob_recordExit fun _ => rfl]

/-- The end of a child can be exchanged with the end of an output. -/
theorem recordDrained_recordExit_comm {job' : Job} (hj : b.jobs[j]? = some job)
    (hd : job.drained = false) (hk : b.jobs[k]? = some job') (hr : job'.reaped = false) :
    (((b.recordExit pid k status).settled k).recordDrained j).settled j =
      (((b.recordDrained j).settled j).recordExit pid k status).settled k := by
  by_cases hne : j = k
  · subst hne
    rw [settled_recordExit_self hj hd, settled_recordDrained_self hk hr,
      recordDrained_recordExit]
  · calc (((b.recordExit pid k status).settled k).recordDrained j).settled j
        = (((b.recordExit pid k status).recordDrained j).settled k).settled j := by
          rw [settled_recordDrained hne]
      _ = (((b.recordDrained j).recordExit pid k status).settled j).settled k := by
          rw [recordDrained_recordExit, settled_settled hne]
      _ = (((b.recordDrained j).settled j).recordExit pid k status).settled k := by
          rw [settled_recordExit (fun heq => hne heq.symm)]

end OrderedJobs.Board
