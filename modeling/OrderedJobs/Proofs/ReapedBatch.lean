import Mathlib.Data.List.TakeWhile
import OrderedJobs.Proofs.LifeCycle

/-! # The children of one reaping

One notice may stand for many ends, so one reaping asks for every running child.  What it does is
said here for any board that a run can come to and for any state of the operating system.  The
children that can be waited for (`Host.waitable`) are asked in the order of their launch, up to the
first that cannot; of these, the ones that have ended (`Host.endedOf`) are recorded, each in full,
and nothing else is changed (`Session.Recorded`).  So it is for one child
(`Session.recorded_exited`), hence for any number of them (`Session.reapEach_waitable`), and for the
whole reaping, whether it comes to its end or not (`Session.reap_exact`). -/

namespace OrderedJobs

/-! ### Asking for one child -/

namespace Host

variable {h : Host} {j k : Nat} {c : Child}

/-- The child can be waited for: there is one, its status was not handed out, and it is not lost. -/
def waitable (h : Host) (j : Nat) : Bool :=
  (h.children[j]?).any fun c => !c.collected && !h.platform.faults.lost.contains j

/-- The status with which a child has ended, if it has. -/
def statusOf (h : Host) (j : Nat) : Option WaitStatus := (h.children[j]?).bind Child.status

/-- Those of some children that have ended. -/
def endedOf (h : Host) (js : List Nat) : List Nat := js.filter fun j => (h.statusOf j).isSome

theorem childOf_pidOf (h : Host) (j : Nat) :
    h.childOf (pidOf j) = if j < h.children.length then some j else none := by
  have hj : (pidOf j - 1000).toNat = j := by
    unfold pidOf
    omega
  have hle : 1000 ≤ pidOf j := by
    unfold pidOf
    omega
  unfold childOf
  simp only [hj, hle, true_and]

theorem waitable_iff (hc : h.children[j]? = some c) :
    h.waitable j = true ↔ c.collected = false ∧ j ∉ h.platform.faults.lost := by
  simp [waitable, hc]

theorem collect_of_waitable (hw : h.waitable j = true) : h.collect (pidOf j) =
    (.ok (h.statusOf j), (h.statusOf j).elim h fun _ => h.handedOut j) := by
  obtain ⟨c, hc, -⟩ := (Option.any_eq_true ..).1 hw
  obtain ⟨hcoll, hlost⟩ := (waitable_iff hc).1 hw
  have hj : h.childOf (pidOf j) = some j := by
    rw [childOf_pidOf, if_pos (List.getElem?_eq_some_iff.1 hc).1]
  have hstatus : h.statusOf j = c.status := by simp [statusOf, hc]
  rw [hstatus]
  cases hs : c.status with
  | none => exact collect_running hj hc hlost hcoll hs
  | some status => exact collect_ended hj hc hlost hcoll hs

theorem collect_of_not_waitable (hw : h.waitable j = false) :
    h.collect (pidOf j) = (.error .noChild, h) := by
  unfold collect
  cases hc : h.children[j]? with
  | none =>
      have hlen : h.children.length ≤ j := by simpa using hc
      rw [childOf_pidOf, if_neg (by omega)]
      rfl
  | some c =>
      have hnot : c.collected = true ∨ j ∈ h.platform.faults.lost := by
        have hboth : ¬(c.collected = false ∧ j ∉ h.platform.faults.lost) := by
          simp [← waitable_iff hc, hw]
        cases hcoll : c.collected <;> simp_all
      rw [childOf_pidOf, if_pos (List.getElem?_eq_some_iff.1 hc).1, Option.bind_some, hc]
      exact if_pos hnot

end Host

theorem Job.drained_afterExit (job : Job) : job.afterExit.drained = job.drained := by
  unfold afterExit
  split <;> rfl

theorem Job.afterExit_afterExit (job : Job) : job.afterExit.afterExit = job.afterExit := by
  unfold afterExit
  by_cases hd : job.drained = true <;> simp [hd]

/-- The end of a job's child is recorded, and the job was drained: it leaves the ring. -/
def Board.leaves (b : Board) (ended : List Nat) (j : Nat) : Bool :=
  ended.contains j && (b.jobs[j]?).any Job.drained

namespace Board.Counts

variable {b : Board} (h : b.Counts)
include h

theorem map_running : b.running.map Prod.snd = b.unreaped := by
  rw [h.running, List.map_map]
  exact List.map_id _

theorem eq_pair {x : Int × Nat} (hx : x ∈ b.running) : (Host.pidOf x.2, x.2) = x :=
  Prod.ext (h.mem_running.1 hx).1.symm rfl

theorem map_pair {l : List (Int × Nat)} (hl : ∀ x ∈ l, x ∈ b.running) :
    (l.map Prod.snd).map (fun j => (Host.pidOf j, j)) = l := by
  rw [List.map_map]
  exact (List.map_congr_left fun x hx => h.eq_pair (hl x hx)).trans (List.map_id _)

theorem nodup_split {before rest : List (Int × Nat)} (hrun : b.running = before ++ rest) :
    (before.map Prod.snd ++ rest.map Prod.snd).Nodup := by
  rw [← List.map_append, ← hrun, h.map_running]
  exact b.nodup_unreaped

end Board.Counts

namespace Session

variable {s t s' : Session} {ended ended' : List Nat} {j k : Nat} {status : WaitStatus}

/-! ### What is recorded -/

/-- Of some children the ends were recorded, and nothing else was changed: they do not run any more,
they are counted, their statuses are folded into the exit code, their jobs are reaped, and those of
their jobs that were drained are retired and leave the ring. -/
structure Recorded (s s' : Session) (ended : List Nat) : Prop where
  running : s'.board.running = s.board.running.filter fun x => !ended.contains x.2
  finished : s'.board.finished = s.board.finished + ended.length
  exitCode : s'.board.exitCode =
    (ended.filterMap s.host.statusOf).foldl WaitStatus.fold s.board.exitCode
  jobs : ∀ k : Nat, s'.board.jobs[k]? =
    (s.board.jobs[k]?).map fun job => if k ∈ ended then job.afterExit else job
  ring : s'.board.ring = s.board.ring.map (Option.filter fun j => !s.board.leaves ended j)
  board : s'.board = { s.board with
    running := s'.board.running
    finished := s'.board.finished
    exitCode := s'.board.exitCode
    jobs := s'.board.jobs
    ring := s'.board.ring }
  children : ∀ k : Nat, s'.host.children[k]? =
    (s.host.children[k]?).map fun c => if k ∈ ended then { c with collected := true } else c
  host : s'.host = { s.host with
    children := s'.host.children
    collections := s.host.collections ++ ended }
  display : s'.display = s.display

namespace Recorded

theorem refl (s : Session) : Recorded s s [] where
  running := (List.filter_eq_self.2 fun _ _ => rfl).symm
  finished := by simp
  exitCode := rfl
  jobs := by simp
  ring := by
    have hkeeps : (Option.filter fun j => !s.board.leaves [] j) = id := by
      funext o
      cases o <;> rfl
    rw [hkeeps, List.map_id]
  board := rfl
  children := by simp
  host := by simp
  display := rfl

section

variable (h : Recorded s s' ended)
include h

theorem statusOf (k : Nat) : s'.host.statusOf k = s.host.statusOf k := by
  unfold Host.statusOf
  rw [h.children]
  cases s.host.children[k]? with
  | none => rfl
  | some c => by_cases hk : k ∈ ended <;> simp [hk]

theorem drained (k : Nat) :
    (s'.board.jobs[k]?).any Job.drained = (s.board.jobs[k]?).any Job.drained := by
  rw [h.jobs]
  cases s.board.jobs[k]? with
  | none => rfl
  | some job => by_cases hk : k ∈ ended <;> simp [hk, Job.drained_afterExit]

theorem endedOf (js : List Nat) : s'.host.endedOf js = s.host.endedOf js := by
  unfold Host.endedOf
  simp only [h.statusOf]

theorem mem_unreaped (hk : k ∉ ended) (hrun : k ∈ s.board.unreaped) : k ∈ s'.board.unreaped := by
  obtain ⟨job, hjob, hr⟩ := Board.mem_unreaped.1 hrun
  have hjob' : s'.board.jobs[k]? = some job := by
    rw [h.jobs, hjob]
    simp [hk]
  exact Board.mem_unreaped.2 ⟨job, hjob', hr⟩

theorem waitable (hk : k ∉ ended) : s'.host.waitable k = s.host.waitable k := by
  have hplatform : s'.host.platform = s.host.platform := by rw [h.host]
  unfold Host.waitable
  rw [h.children, hplatform]
  cases s.host.children[k]? <;> simp [hk]

end

theorem trans (h : Recorded s t ended) (h' : Recorded t s' ended') :
    Recorded s s' (ended ++ ended') where
  running := by
    rw [h'.running, h.running, List.filter_filter]
    simp [Bool.and_comm]
  finished := by
    rw [h'.finished, h.finished, List.length_append]
    omega
  exitCode := by
    have hstatus : t.host.statusOf = s.host.statusOf := funext h.statusOf
    rw [h'.exitCode, h.exitCode, hstatus, List.filterMap_append, List.foldl_append]
  jobs := by
    intro k
    rw [h'.jobs, h.jobs, Option.map_map]
    cases s.board.jobs[k]? with
    | none => rfl
    | some job =>
        by_cases hk : k ∈ ended <;> by_cases hk' : k ∈ ended' <;>
          simp [hk, hk', Job.afterExit_afterExit]
  ring := by
    rw [h'.ring, h.ring, List.map_map]
    apply List.map_congr_left
    intro o _
    simp only [Function.comp_apply, Option.filter_filter, Board.leaves, h.drained]
    congr 1
    funext j
    rw [List.contains_append, Bool.and_or_distrib_right, Bool.not_or]
  board := by
    have hboard := h'.board
    rw [h.board] at hboard
    exact hboard
  children := by
    intro k
    rw [h'.children, h.children, Option.map_map]
    cases s.host.children[k]? with
    | none => rfl
    | some c => by_cases hk : k ∈ ended <;> by_cases hk' : k ∈ ended' <;> simp [hk, hk']
  host := by
    have hhost := h'.host
    rw [h.host] at hhost
    rw [← List.append_assoc]
    exact hhost
  display := h'.display.trans h.display

end Recorded

/-- The slot of a job that runs is freed if the job was drained. -/
theorem ring_exited (h : s.board.Sound) (hj : j ∈ s.board.unreaped) (status : WaitStatus) :
    (s.exited j status).board.ring = s.board.ring.map (Option.filter fun k =>
      !s.board.leaves [j] k) := by
  obtain ⟨job, hjob, hr⟩ := Board.mem_unreaped.1 hj
  have hget := Board.getElem?_recordExit hjob (Host.pidOf j) status
  show (Board.settled _ j).ring = _
  cases hd : job.drained with
  | false =>
      rw [Board.settled_eq_self hget (by simp [hd])]
      refine (List.map_id _).symm.trans (List.map_congr_left fun o _ => ?_)
      cases o with
      | none => rfl
      | some k =>
          have hstays : ¬(k = j ∧ (s.board.jobs[k]?).any Job.drained = true) := by
            rintro ⟨rfl, hdrained⟩
            simp [hjob, hd] at hdrained
          simp [Board.leaves, Option.filter_some, hstays]
  | true =>
      have hlive : s.board.Live j := ⟨job, hjob, by simp [hr]⟩
      have hindex : job.index = j := (h.kept j job hjob).index
      rw [Board.settled_eq_vacate hget ⟨rfl, hd⟩]
      show s.board.ring.set (s.board.slot job.index) none = _
      rw [hindex]
      apply List.ext_getElem?
      intro slot
      rw [List.getElem?_map]
      by_cases hslot : s.board.slot j = slot
      · -- The slot of the job, which holds it.
        have hheld := (h.occupied slot j).2 ⟨hlive, hslot⟩
        have hlt := (List.getElem?_eq_some_iff.1 hheld).1
        rw [hslot, List.getElem?_set_self hlt, hheld]
        simp [Board.leaves, Option.filter_some, hjob, hd]
      · rw [List.getElem?_set_ne hslot]
        cases ho : s.board.ring[slot]? with
        | none => rfl
        | some o =>
            cases o with
            | none => rfl
            | some k =>
                have hk : k ≠ j := by
                  rintro rfl
                  exact hslot ((h.occupied slot k).1 ho).2
                simp [Board.leaves, Option.filter_some, hk]

theorem recorded_exited (h : s.board.Sound) (hj : j ∈ s.board.unreaped)
    (hs : s.host.statusOf j = some status) : Recorded s (s.exited j status) [j] where
  running := by
    show (Board.settled _ j).running = _
    rw [Board.settled_running]
    apply List.filter_congr
    intro x hx
    obtain ⟨hpid, -⟩ := h.mem_running.1 (show (x.1, x.2) ∈ _ from hx)
    show (x.1 != Host.pidOf j) = !([j].contains x.2)
    rw [hpid, Bool.eq_iff_iff]
    simp [Board.pidOf_inj]
  finished := Board.settled_finished _ _
  exitCode := by
    show (Board.settled _ j).exitCode = _
    rw [Board.settled_exitCode]
    simp [hs, Board.recordExit]
  jobs := by
    intro k
    show (Board.settled _ j).jobs[k]? = _
    rw [Board.jobs_reaps]
    simp [eq_comm]
  ring := ring_exited h hj status
  board := by
    unfold exited
    dsimp only
    rcases (s.board.recordExit (Host.pidOf j) j status).settled_cases j with heq | ⟨index, heq⟩
    · rw [heq]
      rfl
    · rw [heq]
      rfl
  children := by
    intro k
    show (s.host.handedOut j).children[k]? = _
    rw [Host.children_handedOut]
    simp [eq_comm]
  host := rfl
  display := rfl

/-! ### The whole reaping -/

/-- Asking for children that can all be waited for, and then for others: by induction on their list,
for any session in which they all run still. -/
theorem reapEach_waitable (js : List Nat) (rest : List (Int × Nat)) (h : s.board.Sound)
    (hjs : ∀ j ∈ js, j ∈ s.board.unreaped) (hn : js.Nodup)
    (hall : ∀ j ∈ js, s.host.waitable j = true) : ∃ t,
      t.board.Sound ∧ Recorded s t (s.host.endedOf js) ∧
        reapEach ((js.map fun j => (Host.pidOf j, j)) ++ rest) s =
          ((reapEach rest t).1.map (s.host.endedOf js ++ ·), (reapEach rest t).2) := by
  induction js generalizing s with
  | nil =>
      refine ⟨s, h, .refl s, Prod.ext ?_ rfl⟩
      show (reapEach rest s).1 = (reapEach rest s).1.map _
      cases (reapEach rest s).1 <;> rfl
  | cons j js ih =>
      rw [List.forall_mem_cons] at hjs hall
      rw [List.nodup_cons] at hn
      have hcollect := Host.collect_of_waitable hall.1
      cases hs : s.host.statusOf j with
      | none =>
          have hended : s.host.endedOf (j :: js) = s.host.endedOf js := by
            simp [Host.endedOf, hs]
          obtain ⟨t, hsound, hrecorded, heq⟩ := ih h hjs.2 hn.2 hall.2
          rw [hs] at hcollect
          refine ⟨t, hsound, hended ▸ hrecorded, ?_⟩
          rw [hended, ← heq, List.map_cons, List.cons_append, reapEach, hcollect]
          rfl
      | some status =>
          have hended : s.host.endedOf (j :: js) = j :: s.host.endedOf js := by
            simp [Host.endedOf, hs]
          have hone := recorded_exited h hjs.1 hs
          have hne : ∀ k ∈ js, k ≠ j := fun k hk heq => hn.1 (heq ▸ hk)
          obtain ⟨t, hsound, hrecorded, heq⟩ := ih (h.reap hjs.1 status)
            (fun k hk => hone.mem_unreaped (by simp [hne k hk]) (hjs.2 k hk)) hn.2
            (fun k hk => (hone.waitable (by simp [hne k hk])).trans (hall.2 k hk))
          rw [hone.endedOf] at hrecorded heq
          rw [hs] at hcollect
          refine ⟨t, hsound, hended ▸ hone.trans hrecorded, ?_⟩
          rw [List.map_cons, List.cons_append, reapEach_ended h hjs.1 hcollect, heq, hended]
          refine Prod.ext ?_ rfl
          show Except.map _ (Except.map _ _) = _
          cases (reapEach rest t).1 <;> rfl

section

variable {before rest : List (Int × Nat)} {y : Int × Nat}

/-- Asking for all the running children, when those up to some point can be waited for. -/
theorem reapEach_running (h : s.board.Sound) (hrun : s.board.running = before ++ rest)
    (hall : ∀ y ∈ before, s.host.waitable y.2 = true) : ∃ t, t.board.Sound ∧
      Recorded s t (s.host.endedOf (before.map Prod.snd)) ∧ reapEach s.board.running s =
        ((reapEach rest t).1.map (s.host.endedOf (before.map Prod.snd) ++ ·),
          (reapEach rest t).2) := by
  have hmem : ∀ y ∈ before, y ∈ s.board.running := fun y hy => by
    rw [hrun]
    exact List.mem_append_left _ hy
  have hunreaped : ∀ j ∈ before.map Prod.snd, j ∈ s.board.unreaped :=
    List.forall_mem_map.2 fun y hy => (h.mem_running.1 (hmem y hy)).2
  have hn := (List.nodup_append.1 (h.nodup_split hrun)).1
  obtain ⟨t, hsound, hrecorded, heq⟩ :=
    reapEach_waitable (before.map Prod.snd) rest h hunreaped hn (List.forall_mem_map.2 hall)
  rw [h.map_pair hmem, ← hrun] at heq
  exact ⟨t, hsound, hrecorded, heq⟩

theorem not_mem_endedOf (h : s.board.Sound) (hrun : s.board.running = before ++ rest)
    (hy : y ∈ rest) : y.2 ∉ s.host.endedOf (before.map Prod.snd) := by
  intro hended
  have hdisjoint := (List.nodup_append.1 (h.nodup_split hrun)).2.2
  exact hdisjoint y.2 (List.mem_filter.1 hended).1 y.2 (List.mem_map_of_mem hy) rfl

/-- Taking the notices empties the wakeup pipe and changes nothing else. -/
theorem takeNotices_frame (s : Session) : ∃ misused,
    s.takeNotices = { s with host := { s.host with notices := 0, misused := misused } } := by
  obtain ⟨misused, heq⟩ := s.host.useNotices_frame
  refine ⟨misused, ?_⟩
  unfold takeNotices Host.takeNotices
  rw [heq]

theorem waitable_takeNotices (s : Session) :
    s.takeNotices.host.waitable = s.host.waitable := by
  obtain ⟨misused, heq⟩ := s.takeNotices_frame
  rw [heq]
  rfl

theorem statusOf_takeNotices (s : Session) :
    s.takeNotices.host.statusOf = s.host.statusOf := by
  obtain ⟨misused, heq⟩ := s.takeNotices_frame
  rw [heq]
  rfl

theorem endedOf_takeNotices (s : Session) : s.takeNotices.host.endedOf = s.host.endedOf := by
  funext js
  unfold Host.endedOf
  rw [statusOf_takeNotices]

/-- The running children up to some point can be waited for, and the next, if there is one,
cannot. -/
theorem reap_split (h : s.board.Sound) (hrun : s.board.running = before ++ rest)
    (hall : ∀ y ∈ before, s.host.waitable y.2 = true)
    (hrest : ∀ x ∈ rest.head?, s.host.waitable x.2 = false) :
    s.reap.2.board.Sound ∧
      Recorded s.takeNotices s.reap.2 (s.host.endedOf (before.map Prod.snd)) ∧
      s.reap.1 = match rest.head? with
        | none => .ok (s.host.endedOf (before.map Prod.snd))
        | some x => .error (.system (.wait x.1) .noChild) := by
  have h' : s.takeNotices.board.Sound := h
  obtain ⟨t, hsound, hrecorded, heq⟩ := reapEach_running h' hrun
    (fun y hy => by rw [waitable_takeNotices]; exact hall y hy)
  rw [endedOf_takeNotices] at hrecorded heq
  have hreap : s.reap = _ := heq
  rw [hreap]
  cases rest with
  | nil =>
      refine ⟨hsound, hrecorded, ?_⟩
      show Except.ok (_ ++ []) = _
      rw [List.append_nil]
      rfl
  | cons x after =>
      have hx : x ∈ s.board.running := hrun ▸ List.mem_append_right _ List.mem_cons_self
      have hlost : t.host.waitable x.2 = false := by
        rw [hrecorded.waitable (not_mem_endedOf h hrun List.mem_cons_self), waitable_takeNotices]
        exact hrest x rfl
      have hstop : reapEach (x :: after) t = (.error (.system (.wait x.1) .noChild), t) := by
        rw [← h.eq_pair hx, reapEach, Host.collect_of_not_waitable hlost]
      rw [hstop]
      exact ⟨hsound, hrecorded, rfl⟩

/-- Whatever a reaping comes to, the ends of some children were recorded. -/
theorem exists_recorded (h : s.board.Sound) :
    s.reap.2.board.Sound ∧ ∃ ended, Recorded s.takeNotices s.reap.2 ended := by
  have hhead := List.head?_dropWhile_not (fun x : Int × Nat => s.host.waitable x.2) s.board.running
  obtain ⟨hsound, hrecorded, -⟩ := reap_split h List.takeWhile_append_dropWhile.symm
    (fun y hy => by simpa using List.mem_takeWhile_imp hy)
    (fun x hx => by
      rw [hx] at hhead
      exact hhead)
  exact ⟨hsound, _, hrecorded⟩

theorem reap_all (h : s.board.Sound)
    (hall : ∀ x ∈ s.board.running, s.host.waitable x.2 = true) :
    let ended := s.host.endedOf (s.board.running.map Prod.snd)
    s.reap.1 = .ok ended ∧ ended.Pairwise (· < ·) ∧ Recorded s.takeNotices s.reap.2 ended ∧
      ∀ x ∈ s.reap.2.board.running, s.reap.2.host.statusOf x.2 = none := by
  obtain ⟨-, hrecorded, hresult⟩ :=
    reap_split h (List.append_nil _).symm hall (fun x hx => by cases hx)
  refine ⟨hresult, ?_, hrecorded, fun x hx => ?_⟩
  · rw [h.map_running]
    exact (List.pairwise_lt_range.filter _).filter _
  · rw [hrecorded.running] at hx
    obtain ⟨hrun, hleft⟩ := List.mem_filter.1 hx
    have hrun : x ∈ s.board.running := hrun
    rw [hrecorded.statusOf, statusOf_takeNotices]
    cases hs : s.host.statusOf x.2 with
    | none => rfl
    | some status =>
        have hmem : x.2 ∈ s.host.endedOf (s.board.running.map Prod.snd) :=
          List.mem_filter.2 ⟨List.mem_map_of_mem hrun, by simp [hs]⟩
        simp [hmem] at hleft

end

/-- Nothing was done about a job and its child. -/
structure Spared (s s' : Session) (j : Nat) : Prop where
  running : (Host.pidOf j, j) ∈ s'.board.running
  job : s'.board.jobs[j]? = s.board.jobs[j]?
  ring : ∀ slot : Nat, s'.board.ring[slot]? = some (some j) ↔ s.board.ring[slot]? = some (some j)
  child : s'.host.children[j]? = s.host.children[j]?

/-- Whatever was not recorded was let alone. -/
theorem Recorded.spares (h : Recorded s s' ended) (hj : j ∉ ended)
    (hrun : (Host.pidOf j, j) ∈ s.board.running) : Spared s s' j where
  running := by
    rw [h.running]
    exact List.mem_filter.2 ⟨hrun, by simp [hj]⟩
  job := by
    rw [h.jobs]
    simp [hj]
  ring := by
    intro slot
    rw [h.ring, List.getElem?_map]
    cases ho : s.board.ring[slot]? with
    | none => simp
    | some o =>
        cases o with
        | none => simp
        | some k =>
            by_cases hk : k = j
            · subst hk
              simp [Board.leaves, Option.filter_some, hj]
            · simp [Option.filter_some, hk]
  child := by
    rw [h.children]
    simp [hj]

/-- One reaping takes all notices.  If every running child can be waited for, it gives the jobs of
those that have ended, in the order of their launch, and records just these.  Otherwise it fails for
the first that cannot be waited for; those that have ended before it are recorded, and nothing was
done about it and those after it. -/
theorem reap_exact {limits : Limits} (s : Session)
    (hr : Relation.ReflTransGen Board.Change (Board.empty limits) s.board) :
    let s' := s.reap.2
    (∃ misused, s.takeNotices =
        { s with host := { s.host with notices := 0, misused := misused } }) ∧
    s'.host.notices = 0 ∧ s'.host.descriptors = s.host.descriptors ∧
    s'.board.finished + s'.board.running.length = s'.board.started ∧
    ((∀ x ∈ s.board.running, s.host.waitable x.2 = true) →
      let ended := s.host.endedOf (s.board.running.map Prod.snd)
      s.reap.1 = .ok ended ∧ ended.Pairwise (· < ·) ∧ Recorded s.takeNotices s' ended ∧
        ∀ x ∈ s'.board.running, s'.host.statusOf x.2 = none) ∧
    ∀ before x after, s.board.running = before ++ x :: after →
      (∀ y ∈ before, s.host.waitable y.2 = true) → s.host.waitable x.2 = false →
      s.reap.1 = .error (.system (.wait x.1) .noChild) ∧
        Recorded s.takeNotices s' (s.host.endedOf (before.map Prod.snd)) ∧
        ∀ y ∈ x :: after, Spared s s' y.2 := by
  have h := Board.sound_of_changes hr
  obtain ⟨misused, htake⟩ := s.takeNotices_frame
  obtain ⟨hsound, ended, hrecorded⟩ := exists_recorded h
  refine ⟨⟨misused, htake⟩, ?_, ?_, hsound.finished, reap_all h, ?_⟩
  · rw [hrecorded.host, htake]
  · rw [hrecorded.host, htake]
  · intro before x after hrun hbefore hx
    obtain ⟨-, hrecorded, hresult⟩ :=
      reap_split h hrun hbefore (fun y hy => by cases hy; exact hx)
    refine ⟨hresult, hrecorded, fun y hy => ?_⟩
    have hmem : y ∈ s.board.running := hrun ▸ List.mem_append_right _ hy
    have hspared : Spared s.takeNotices s.reap.2 y.2 :=
      hrecorded.spares (not_mem_endedOf h hrun hy) ((h.eq_pair hmem).symm ▸ hmem)
    rw [htake] at hspared
    exact ⟨hspared.running, hspared.job, hspared.ring, hspared.child⟩

/-- Three children that have ended, and the second is lost: only the first is recorded. -/
theorem reap_exact_second_lost :
    let limits : Limits := ⟨3, 3, by decide, by decide⟩
    let launch : Board → Board := fun b =>
      b.enroll (({ index := b.next, command := [] } : Job).runBy b.jobs.length)
        (Host.pidOf b.jobs.length)
    let child : Nat → WaitStatus → Child := fun pipe status =>
      { pipe, command := [], calls := [], waiting := [], held := false, status := some status }
    let s : Session := {
      host := {
        platform := { faults := { lost := [1] } }
        children := [child 1 768, child 2 0, child 3 9]
        notices := 5 }
      board := launch (launch (launch (.empty limits)))
      display := { progress := false } }
    Relation.ReflTransGen Board.Change (Board.empty limits) s.board ∧
      s.reap.1 = .error (.system (.wait 1001) .noChild) ∧ s.reap.2.host.notices = 0 ∧
      s.reap.2.board.running = [(1001, 1), (1002, 2)] ∧ s.reap.2.board.finished = 1 ∧
      s.reap.2.board.exitCode = 3 := by
  intro limits launch child s
  have hr : Relation.ReflTransGen Board.Change (Board.empty limits) s.board :=
    .tail (.tail (.single (.launches [] rfl)) (.launches [] rfl)) (.launches [] rfl)
  obtain ⟨-, hnotices, -, -, -, hlost⟩ := reap_exact s hr
  obtain ⟨hresult, hrecorded, -⟩ := hlost [(1000, 0)] (1001, 1) [(1002, 2)] rfl
    (fun y hy => by cases List.mem_singleton.1 hy; rfl) rfl
  refine ⟨hr, hresult, hnotices, ?_, ?_, ?_⟩
  · rw [hrecorded.running]
    rfl
  · rw [hrecorded.finished]
    rfl
  · rw [hrecorded.exitCode]
    rfl

end Session

end OrderedJobs
