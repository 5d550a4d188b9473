import OrderedJobs.Proofs.BoardExchange
import OrderedJobs.Proofs.Copying
import OrderedJobs.Proofs.Reached

/-! # The order of handling

A wait that finds both notices and output handles the notices first.  Without progress notes it
might as well begin with the output (`Run.reap_drain_commute`).  Neither reading nor writing takes
notice of what a reaping does to the host (`Host.Unnoticed`), and on the board the end of a child
can be exchanged with all that a drain does; so a drain can be moved past the accounting for one
child (`Session.Sound.drain_exited`), and by induction past a whole reaping
(`Session.Sound.drain_reapEach`).  Only the records of the journal change places. -/

namespace OrderedJobs

/-! ### The host -/

namespace Host

variable {f : Host → Host}

/-- What a read gives depends on the platform, on the descriptors and on the pipe. -/
theorem read_congr {h h' : Host} {i limit : Nat} (hplatform : h'.platform = h.platform)
    (hdescriptors : h'.descriptors = h.descriptors)
    (hpipe : (h'.children[i]?).map (fun c => (c.pipe, c.waiting, c.held)) =
      (h.children[i]?).map fun c => (c.pipe, c.waiting, c.held)) :
    (h'.read i limit).1 = (h.read i limit).1 := by
  unfold read
  cases hc : h.children[i]? with
  | none =>
      rw [hc] at hpipe
      rw [Option.map_eq_none_iff.1 hpipe]
  | some c =>
      rw [hc] at hpipe
      obtain ⟨c', hc', heq⟩ := Option.map_eq_some_iff.1 hpipe
      simp only [Prod.mk.injEq] at heq
      obtain ⟨hpipe, hwaiting, hheld⟩ := heq
      rw [hc']
      dsimp only
      unfold atEnd
      rw [hplatform, hdescriptors, hpipe, hwaiting, hheld]
      by_cases hopen : .readEnd c.pipe ∈ h.descriptors
      · rw [if_neg (not_not_intro hopen), if_neg (not_not_intro hopen)]
        cases h.platform.faults.read.error? i with
        | some e => rfl
        | none =>
            dsimp only
            split <;> rfl
      · rw [if_pos hopen, if_pos hopen]

/-- A change of the host that reading and writing take no notice of. -/
structure Unnoticed (f : Host → Host) : Prop where
  read : ∀ h i limit, ((f h).read i limit).1 = (h.read i limit).1
  write : ∀ h data, (f h).write data = ((h.write data).1, f (h.write data).2)

theorem unnoticed_handedOut (j : Nat) : Unnoticed (handedOut · j) where
  read := by
    intro h i limit
    refine read_congr rfl rfl ?_
    rw [children_handedOut, Option.map_map]
    refine congrArg (Option.map · _) (funext fun c => ?_)
    by_cases hji : j = i <;> simp [hji]
  write := by
    intro h data
    have hfault : (handedOut h j).platform.faults.write.error? (handedOut h j).writeCalls =
        h.platform.faults.write.error? h.writeCalls := rfl
    unfold write
    rw [hfault]
    cases h.platform.faults.write.error? h.writeCalls <;> rfl

theorem unnoticed_takeNotices : Unnoticed fun h => { h with notices := 0 } where
  read := fun _ _ _ => read_congr rfl rfl rfl
  write := by
    intro h data
    unfold write
    dsimp only
    cases h.platform.faults.write.error? h.writeCalls <;> rfl

theorem Unnoticed.writeAll (hf : Unnoticed f) (data : Bytes) (h : Host) :
    Host.writeAll data (f h) = ((Host.writeAll data h).1, f (Host.writeAll data h).2) := by
  fun_induction Host.writeAll data h with
  | case1 h => rw [Host.writeAll, dif_pos rfl]
  | case2 data h hd e h' hwrite =>
      rw [Host.writeAll, dif_neg hd, hf.write, hwrite]
  | case3 data h hd n h' hwrite ih =>
      rw [Host.writeAll, dif_neg hd, hf.write, hwrite]
      exact ih

theorem taken_handedOut (h : Host) (i j limit : Nat) :
    (h.handedOut j).taken i limit = (h.taken i limit).handedOut j := by
  unfold taken handedOut updateChild
  dsimp only
  by_cases hji : j = i
  · rw [hji, List.modify_modify_eq, List.modify_modify_eq]
    rfl
  · rw [List.modify_modify_ne _ _ _ hji]

end Host

/-! ### Sessions -/

namespace Session

variable {s t u : Session} {o : Holdings} {j k : Nat} {job : Job} {status : WaitStatus}
  {f : Host → Host}

/-- Two sessions that differ at most in the order of their records. -/
structure Agrees (s t : Session) : Prop where
  board : s.board = t.board
  host : s.host = t.host
  display : s.display = t.display
  journal : s.journal.Perm t.journal

theorem Agrees.refl (s : Session) : s.Agrees s := ⟨rfl, rfl, rfl, .refl _⟩

theorem Agrees.trans (h : s.Agrees t) (k : t.Agrees u) : s.Agrees u :=
  ⟨h.board.trans k.board, h.host.trans k.host, h.display.trans k.display,
    h.journal.trans k.journal⟩

/-- Accounting for an exit keeps sessions that agree in agreement. -/
theorem Agrees.exited (h : s.Agrees t) (k : Nat) (status : WaitStatus) :
    (s.exited k status).Agrees (t.exited k status) := by
  unfold Session.exited
  rw [h.board, h.host]
  exact ⟨rfl, rfl, h.display, h.journal.append_right _⟩

theorem present_unnoticed (hf : Host.Unnoticed f) (ht : t.host = f s.host)
    (segments : List Segment) : t.present segments =
      ((s.present segments).1, { t with host := f (s.present segments).2.host }) := by
  unfold present
  rw [ht, hf.writeAll]
  rcases Host.writeAll (segments.flatMap Segment.bytes) s.host with ⟨_ | _, h⟩ <;> rfl

/-! ### A drain beside the accounting for one exit -/

theorem began_exited (hj : s.board.jobs[j]? = some job) (hd : job.drained = false) (k : Nat)
    (status : WaitStatus) : (s.exited k status).began j = (s.began j).exited k status := by
  unfold began exited
  dsimp only
  rw [Board.updateJob_recordExit_comm hj hd]
  rfl

theorem taken_exited (s : Session) (j k : Nat) (status : WaitStatus) :
    (s.exited k status).taken j = (s.taken j).exited k status := by
  unfold taken exited
  dsimp only
  rw [Host.taken_handedOut]

theorem present_exited (s : Session) (k : Nat) (status : WaitStatus) (segments : List Segment) :
    (s.exited k status).present segments =
      ((s.present segments).1, (s.present segments).2.exited k status) := by
  obtain ⟨accepted, calls, hframe⟩ := s.present_frame segments
  rw [present_unnoticed (Host.unnoticed_handedOut k) (t := s.exited k status) rfl, hframe]
  rfl

theorem closed_exited {job' : Job} (hj : s.board.jobs[j]? = some job) (hd : job.drained = false)
    (hk : s.board.jobs[k]? = some job') (hr : job'.reaped = false) (status : WaitStatus) :
    ((s.exited k status).closed j o).Agrees ((s.closed j o).exited k status) where
  board := Board.recordDrained_recordExit_comm hj hd hk hr
  host := rfl
  display := rfl
  journal := by
    have hcode : (((s.board.recordDrained j).settled j).recordExit (Host.pidOf k) k
        status).exitCode = (s.board.recordExit (Host.pidOf k) k status).exitCode := by
      show WaitStatus.fold ((s.board.recordDrained j).settled j).exitCode status = _
      rw [Board.settled_exitCode]
      rfl
    unfold Session.exited Session.closed
    dsimp only
    rw [hcode, List.append_assoc, List.append_assoc]
    exact (List.Perm.swap _ _ []).append_left _

theorem afterRead_eq (hprogress : s.display.progress = false) (x : Except OsError Bytes) :
    s.afterRead j o x = match x with
      | .error e => (.error (.system (.read j) e), s.began j)
      | .ok [] => (.ok (), (s.began j).closed j o)
      | .ok (b :: rest) => ((s.began j).taken j).present [.job (b :: rest)] := by
  match x with
  | .error e => rfl
  | .ok [] => exact showEnd_eq hprogress
  | .ok (b :: rest) => exact showData_eq (s := (s.began j).taken j) hprogress _

theorem Sound.undrained_at_cursor (h : s.Sound o) (hj : (j : Int) = s.board.current)
    (hlt : s.board.current < s.board.next) :
    ∃ job, s.board.jobs[j]? = some job ∧ job.drained = false := by
  obtain ⟨job, hjob, -, -⟩ := h.job_at_cursor hj hlt
  exact ⟨job, hjob, (h.board.kept j job hjob).undrained (by omega)⟩

theorem Sound.drain_exited (h : s.Sound o) (hj : (j : Int) = s.board.current)
    (hlt : s.board.current < s.board.next) (hprogress : s.display.progress = false)
    (hk : k ∈ s.board.unreaped) {c : Child} (hc : s.host.children[k]? = some c)
    (hs : c.status = some status) : ((s.exited k status).drain j).1 = (s.drain j).1 ∧
      ((s.exited k status).drain j).2.Agrees ((s.drain j).2.exited k status) := by
  have hexited := h.exited hk hc hs
  have hcurrent := s.current_exited k status
  have hnext := s.next_exited k status
  have hread : ((s.exited k status).host.read j chunk).1 = (s.host.read j chunk).1 :=
    (Host.unnoticed_handedOut k).read s.host j chunk
  obtain ⟨job, hjob, hd⟩ := h.undrained_at_cursor hj hlt
  have hbegan := began_exited hjob hd k status
  rw [hexited.drain_eq (hj.trans hcurrent.symm) (by omega), h.drain_eq hj hlt,
    afterRead_eq hprogress, afterRead_eq (s := s.exited k status) hprogress, hread, hbegan]
  match (s.host.read j chunk).1 with
  | .error e => exact ⟨rfl, .refl _⟩
  | .ok [] =>
      obtain ⟨job', hjob', hd'⟩ := (h.began hj).undrained_at_cursor (j := j) hj hlt
      obtain ⟨c', hc', hcoll⟩ := h.child_of_unreaped hk
      obtain ⟨kept, hkept, hr⟩ :=
        Board.mem_unreaped.1 ((h.began hj).unreaped_of_child (j := k) hc' hcoll)
      exact ⟨rfl, closed_exited hjob' hd' hkept hr status⟩
  | .ok (b :: rest) =>
      dsimp only
      rw [taken_exited, present_exited]
      exact ⟨rfl, .refl _⟩

theorem Sound.drain_takeNotices (h : s.Sound o) (hj : (j : Int) = s.board.current)
    (hlt : s.board.current < s.board.next) (hprogress : s.display.progress = false) :
    s.takeNotices.drain j = ((s.drain j).1, (s.drain j).2.takeNotices) := by
  have htaken : s.takeNotices.drain j =
      s.takeNotices.afterRead j o (s.takeNotices.host.read j chunk).1 :=
    h.takeNotices.drain_eq (s := s.takeNotices) hj hlt
  have hread : (({ s.host with notices := 0 } : Host).read j chunk).1 =
      (s.host.read j chunk).1 := Host.unnoticed_takeNotices.read s.host j chunk
  rw [htaken, (h.drain hj hlt).takeNotices_eq, h.drain_eq hj hlt, h.takeNotices_eq, hread,
    afterRead_eq hprogress, afterRead_eq (by exact hprogress)]
  match (s.host.read j chunk).1 with
  | .error e => rfl
  | .ok [] => rfl
  | .ok (b :: rest) =>
      dsimp only
      obtain ⟨accepted, calls, hframe⟩ := ((s.began j).taken j).present_frame [.job (b :: rest)]
      rw [present_unnoticed Host.unnoticed_takeNotices (s := (s.began j).taken j) rfl, hframe]
      rfl

/-! ### A drain beside a reaping -/

theorem Sound.running_drain (h : s.Sound o) (hj : (j : Int) = s.board.current)
    (hlt : s.board.current < s.board.next) :
    (s.drain j).2.board.running = s.board.running := by
  rcases h.board_drain hj hlt with heq | heq
  · rw [heq]
    rfl
  · rw [heq]
    exact Board.settled_running _ _

/-- A drain can be exchanged with asking for a list of running children: by induction on the list,
for a session and one that agrees with it after its drain. -/
theorem Sound.drain_reapEach (l : List (Int × Nat)) (h : s.Sound o) (ht : t.Sound o)
    (hj : (j : Int) = s.board.current) (hlt : s.board.current < s.board.next)
    (hprogress : s.display.progress = false) (hst : (s.drain j).2.Agrees t)
    (hl : ∀ x ∈ l, x ∈ s.board.running) (hl' : ∀ x ∈ l, x ∈ t.board.running)
    (hn : (l.map Prod.fst).Nodup) :
    (Session.reapEach l s).1 = (Session.reapEach l t).1 ∧
      ((Session.reapEach l s).2.drain j).1 = (s.drain j).1 ∧
      ((Session.reapEach l s).2.drain j).2.Agrees (Session.reapEach l t).2 := by
  induction l generalizing s t with
  | nil => exact ⟨rfl, rfl, hst⟩
  | cons x rest ih =>
      obtain ⟨pid, k⟩ := x
      obtain ⟨rfl, hk⟩ := h.board.mem_running.1 (hl _ List.mem_cons_self)
      obtain ⟨-, hk'⟩ := ht.board.mem_running.1 (hl' _ List.mem_cons_self)
      rw [List.map_cons, List.nodup_cons] at hn
      have hrest : ∀ x ∈ rest, x ∈ s.board.running := fun x hx => hl x (List.mem_cons_of_mem _ hx)
      have hrest' : ∀ x ∈ rest, x ∈ t.board.running :=
        fun x hx => hl' x (List.mem_cons_of_mem _ hx)
      have hothers : ∀ x ∈ rest, x.1 ≠ Host.pidOf k :=
        fun x hx heq => hn.1 (List.mem_map.2 ⟨x, hx, heq⟩)
      obtain ⟨hd, -⟩ := h.handled_drain hj hlt
      obtain ⟨c', hc', -⟩ := ht.child_of_unreaped hk'
      obtain ⟨c, hc, hcc⟩ := hd.host.child k c' (by rw [hst.host]; exact hc')
      -- The child has ended before the drain if and only if it has ended after it.
      rw [h.reapEach_cons hk hc, ht.reapEach_cons hk' hc', ← hst.host, hd.host.platform,
        hcc.status]
      by_cases hlost : k ∈ s.host.platform.faults.lost
      · rw [if_pos hlost, if_pos hlost]
        exact ⟨rfl, rfl, hst⟩
      rw [if_neg hlost, if_neg hlost]
      cases hs : c.status with
      | none => exact ih h ht hj hlt hprogress hst hrest hrest' hn.2
      | some status =>
          have hcurrent := s.current_exited k status
          have hnext := s.next_exited k status
          obtain ⟨hfirst, hagree⟩ := h.drain_exited hj hlt hprogress hk hc hs
          obtain ⟨hresult, hdrain, hagrees⟩ := ih (h.exited hk hc hs)
            (ht.exited hk' hc' (hcc.status.trans hs)) (hj.trans hcurrent.symm) (by omega) hprogress
            (hagree.trans (hst.exited k status))
            (fun x hx => mem_running_exited (hrest x hx) (hothers x hx))
            (fun x hx => mem_running_exited (hrest' x hx) (hothers x hx)) hn.2
          exact ⟨congrArg (Except.map (k :: ·)) hresult, hdrain.trans hfirst, hagrees⟩

theorem Sound.drain_reap (h : s.Sound o) (hj : (j : Int) = s.board.current)
    (hlt : s.board.current < s.board.next) (hprogress : s.display.progress = false) :
    s.reap.1 = (s.drain j).2.reap.1 ∧ (s.reap.2.drain j).1 = (s.drain j).1 ∧
      (s.reap.2.drain j).2.Agrees (s.drain j).2.reap.2 := by
  have hdrained := h.drain hj hlt
  have htake := h.drain_takeNotices hj hlt hprogress
  have hrunning := h.running_drain hj hlt
  obtain ⟨hresult, hdrain, hagrees⟩ := h.takeNotices.drain_reapEach s.board.running
    hdrained.takeNotices hj hlt hprogress (by rw [htake]; exact .refl _) (fun _ => id)
    (fun x hx => by exact hrunning.symm ▸ hx) h.board.nodup_running
  unfold Session.reap
  rw [hrunning]
  exact ⟨hresult, hdrain.trans (by rw [htake]), hagrees⟩

/-! ### The two orders -/

/-- Handles output and notices, the output first. -/
def handleOutputFirst (s : Session) (j : Nat) : Except Failure Unit × Session :=
  match s.drain j with
  | (.error e, s) => (.error e, s)
  | (.ok (), s) => s.handleNotices

/-- Both orders of handling succeed if notices and output by themselves can be handled, and then
they come to the same. -/
theorem Sound.handle_comm (h : s.Sound o) (hj : (j : Int) = s.board.current)
    (hlt : s.board.current < s.board.next) (hprogress : s.display.progress = false) :
    ((s.handle (some j) ⟨true, true⟩).1 = .ok () ↔
      s.handleNotices.1 = .ok () ∧ (s.drain j).1 = .ok ()) ∧
    ((s.handleOutputFirst j).1 = .ok () ↔
      s.handleNotices.1 = .ok () ∧ (s.drain j).1 = .ok ()) ∧
    (s.handleNotices.1 = .ok () → (s.drain j).1 = .ok () →
      (s.handle (some j) ⟨true, true⟩).2.Agrees (s.handleOutputFirst j).2) := by
  obtain ⟨hd, -⟩ := h.handled_drain hj hlt
  obtain ⟨hresult, hdrain, hagrees⟩ := h.drain_reap hj hlt hprogress
  have hlate := (h.drain hj hlt).handleNotices_eq (hd.progress.trans hprogress)
  have hnotices := h.handleNotices_eq hprogress
  rw [← hresult] at hlate
  cases hreap : s.reap.1 with
  | error e =>
      rw [hreap] at hlate hnotices
      have hfirst : s.handle (some j) ⟨true, true⟩ = (.error e, s.reap.2) := by
        unfold Session.handle
        rw [if_pos rfl, hnotices]
        rfl
      have hsecond : (s.handleOutputFirst j).1 ≠ .ok () := by
        unfold handleOutputFirst
        generalize s.drain j = x at hlate ⊢
        obtain ⟨e' | _, t⟩ := x
        · simp
        · dsimp only at hlate ⊢
          rw [hlate]
          simp [Except.map]
      rw [hfirst, hnotices]
      exact ⟨iff_of_false (by simp) (by simp [Except.map]),
        iff_of_false hsecond (by simp [Except.map]), fun hok => by cases hok⟩
  | ok js =>
      rw [hreap] at hlate hnotices
      have hfirst : s.handle (some j) ⟨true, true⟩ = s.reap.2.drain j := by
        unfold Session.handle
        rw [if_pos rfl, hnotices]
        rfl
      rw [hfirst, hnotices, hdrain]
      refine ⟨⟨fun hok => ⟨rfl, hok⟩, And.right⟩, ?_⟩
      unfold handleOutputFirst
      generalize s.drain j = x at hlate hagrees ⊢
      obtain ⟨e' | _, t⟩ := x
      · exact ⟨iff_of_false (by simp) (by simp), fun _ hok => by cases hok⟩
      · dsimp only at hlate hagrees ⊢
        rw [hlate]
        exact ⟨iff_of_true rfl ⟨rfl, rfl⟩, fun _ _ => hagrees⟩

end Session

namespace Run

variable {r : Run} {o : Holdings}

/-- Without progress notes, when a wait of a run finds notices as well as output to be handled and
neither fails, it comes to the same whichever is handled first. -/
theorem reap_drain_commute (c : Config) (limits : Limits) (platform : Platform)
    (rounds : List (List Event)) (handler : Handler) (wakeup : Option Descriptor) (o : Holdings)
    (stream : Bytes) (hprogress : c.showsProgress platform.terminal = false)
    (h : Reached (prepare c limits (Host.found platform rounds handler wakeup o) stream) r)
    (hphase : r.session.board.phase = .waiting)
    (hready : (r.session.host.poll r.session.awaited).1 = ⟨true, true⟩) :
    let s := r.session.polled
    ∃ j, s.board.active = some j ∧ r.session.wait = s.handle (some j) ⟨true, true⟩ ∧
      ((s.handle (some j) ⟨true, true⟩).1 = .ok () ↔
        s.handleNotices.1 = .ok () ∧ (s.drain j).1 = .ok ()) ∧
      ((s.handleOutputFirst j).1 = .ok () ↔
        s.handleNotices.1 = .ok () ∧ (s.drain j).1 = .ok ()) ∧
      (s.handleNotices.1 = .ok () → (s.drain j).1 = .ok () →
        (s.handle (some j) ⟨true, true⟩).2.Agrees (s.handleOutputFirst j).2) := by
  intro s
  obtain ⟨hsteady, hfixed⟩ := steady_of_found h
  have hsound := hsteady.sound
  have hpolled := hsound.polled
  have hwait := hsound.wait_eq hsteady.announced hphase
  -- Output is ready, so there is a job to drain.
  have hlt : s.board.current < s.board.next := by
    rcases Int.lt_or_eq_of_le hpolled.board.current_le with hlt | heq
    · exact hlt
    · have hnone : r.session.awaited = none := Session.awaited_eq_none heq
      rw [hnone] at hready
      cases congrArg Readiness.output hready
  have hnn := hpolled.board.current_nonneg
  have hactive := hpolled.board.active_eq hlt
  have hprogress : s.display.progress = false := hfixed.progress.trans hprogress
  refine ⟨_, hactive, ?_, hpolled.handle_comm (Int.toNat_of_nonneg hnn) hlt hprogress⟩
  rw [hwait, hready, hactive]

/-- A job that wrote a byte and ended before the run waits for it: its output can be copied before
it is reaped. -/
theorem reap_drain_commute_ended_at_once :
    let r₀ := prepare ⟨1, none, true, none, []⟩ ⟨1, 1, by decide, by decide⟩
      (Host.found {} [[.data 0 [0x78], .finish 0 0 false]] .default none {}) [0x61, 0x0a]
    ∃ r, Reached r₀ r ∧ r.session.board.phase = .waiting ∧
      (r.session.host.poll r.session.awaited).1 = ⟨true, true⟩ ∧
      r.session.polled.handleNotices.1 = .ok () ∧ (r.session.polled.drain 0).1 = .ok () ∧
      (r.session.polled.handle (some 0) ⟨true, true⟩).2.Agrees
        (r.session.polled.handleOutputFirst 0).2 := by
  intro r₀
  have hstart : Reached r₀ _ := .start (n := ⟨0, .default, none⟩) rfl
  have hlaunched : Reached r₀ _ := hstart.step (step_of_filling rfl)
  obtain ⟨hsteady, hfixed⟩ := steady_of_found hlaunched
  have hpolled := hsteady.sound.polled
  have hspare := hsteady.sound.later_polled.platform.trans hfixed.platform
  have hnotices := hpolled.handleNotices_spared (by rw [hspare]; exact ⟨rfl, rfl, rfl, rfl, rfl⟩)
  have hdrain := hpolled.drain_spared (j := 0) (by rw [hspare]; exact ⟨rfl, rfl, rfl, rfl, rfl⟩)
    rfl (by decide) (by decide +kernel)
  obtain ⟨j, hactive, -, -, -, hagrees⟩ := reap_drain_commute ⟨1, none, true, none, []⟩
    ⟨1, 1, by decide, by decide⟩ {} [[.data 0 [0x78], .finish 0 0 false]] .default none {}
    [0x61, 0x0a] rfl hlaunched rfl (by decide +kernel)
  have hzero : j = 0 := Option.some.inj (hactive.symm.trans rfl)
  subst hzero
  exact ⟨_, hlaunched, rfl, by decide +kernel, hnotices, hdrain, hagrees hnotices hdrain⟩

end Run

end OrderedJobs
