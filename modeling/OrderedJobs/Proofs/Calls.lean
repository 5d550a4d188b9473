import OrderedJobs.Proofs.FailedRuns

/-! # The calls of a run

An operation of a run is one function, but it makes several calls of the operating system, and what
is claimed of every instant is claimed of the states between these calls.  For each operation this
module lists the calls that it makes, each with the session in which it is made (`Entry`); the lists
follow the operations definition by definition.  The lists are complete: every call is made in the
state that the call before it left, and the last leaves the state that the operation ends in
(`Calls`).  So it is for the whole of a run (`Run.calls_execute`). -/

namespace OrderedJobs

/-- A call that the parent makes of the operating system. -/
inductive SystemCall where
  | makePipe
  | fork (pipe : Nat) (command : Command) (echo : Option Bytes)
  | close (d : Descriptor)
  | setSignals (handler : Handler) (wakeup : Option Descriptor) (calls : List SignalCall)
  | poll (active : Option Nat)
  | takeNotices
  | collect (pid : Int)
  | read (child limit : Nat)
  | write (data : Bytes)
  | kill (pid : Int) (signal : Nat)

/-- What a call makes of the host. -/
def SystemCall.effect (h : Host) : SystemCall → Host
  | makePipe => h.makePipe.2
  | fork pipe command echo => (h.fork pipe command echo).2
  | close d => h.close d
  | setSignals handler wakeup calls =>
      { h with handler, wakeup, signalCalls := h.signalCalls ++ calls }
  | poll active => (h.poll active).2
  | takeNotices => h.takeNotices
  | collect pid => (h.collect pid).2
  | read child limit => (h.read child limit).2
  | write data => (h.write data).2
  | kill pid signal => h.kill pid signal

/-- The part of a run that makes a call: it installs the notifier, launches, waits, cleans up after
a failure, or winds up after success. -/
inductive Place where
  | setUp
  | launch
  | wait
  | cleanUp
  | windUp
deriving DecidableEq

/-- A call that is about to be made, and where. -/
structure Entry where
  place : Place
  session : Session
  call : SystemCall

namespace Entry

/-- The host when the call is made. -/
def host (e : Entry) : Host := e.session.host

/-- The host when the call has been made. -/
def after (e : Entry) : Host := e.call.effect e.host

end Entry

/-- Calls that lead from one host to another, each made in the state that the one before left. -/
inductive Calls : Host → List Entry → Host → Prop
  | nil (h : Host) : Calls h [] h
  | cons {h h' : Host} {e : Entry} {es : List Entry} (hhost : e.host = h)
      (hrest : Calls e.after es h') : Calls h (e :: es) h'

namespace Calls

variable {h h₁ h' : Host} {e : Entry} {es fs : List Entry}

theorem one (e : Entry) : Calls e.host [e] e.after := .cons rfl (.nil _)

theorem append (hes : Calls h es h₁) (hfs : Calls h₁ fs h') : Calls h (es ++ fs) h' := by
  induction hes with
  | nil h => exact hfs
  | cons hhost _ ih => exact .cons hhost (ih hfs)

theorem split (hc : Calls h (es ++ fs) h') : ∃ h₁, Calls h es h₁ ∧ Calls h₁ fs h' := by
  induction es generalizing h with
  | nil => exact ⟨h, .nil h, hc⟩
  | cons e es ih =>
      cases hc with
      | cons hhost hrest =>
          obtain ⟨h₁, hes, hfs⟩ := ih hrest
          exact ⟨h₁, .cons hhost hes, hfs⟩

/-- What comes before a call, and what comes after it. -/
theorem at_entry (hc : Calls h (es ++ e :: fs) h') : Calls h es e.host ∧ Calls e.after fs h' := by
  obtain ⟨h₁, hes, hfs⟩ := hc.split
  cases hfs with
  | cons hhost hrest => exact ⟨hhost ▸ hes, hrest⟩

end Calls

/-! ### The calls of each operation -/

namespace Session

variable (p : Place) (s : Session)

/-- The writes that put out all the data, from a state of the host on. -/
def writeCalls (data : Bytes) (h : Host) : List Entry :=
  if _hd : data = [] then []
  else
    ⟨p, { s with host := h }, .write data⟩ ::
      match _hw : h.write data with
      | (.error _, _) => []
      | (.ok n, h') => writeCalls (data.drop n) h'
termination_by data.length
decreasing_by
  have := Host.write_progress _hd _hw
  have := List.length_pos_iff.2 _hd
  simp only [List.length_drop]
  omega

def presentCalls (segments : List Segment) : List Entry :=
  s.writeCalls p (segments.flatMap Segment.bytes) s.host

/-- The call that closes the output of a child. -/
def closeOutputCalls (child : Nat) : List Entry :=
  match s.host.children[child]? with
  | some c => [⟨p, s, .close (.readEnd c.pipe)⟩]
  | none => []

/-- A launch makes a pipe and forks, and closes the write end, or both ends if it cannot fork. -/
def spawnCalls (job : Job) (echo : Option Bytes) : List Entry :=
  ⟨.launch, s, .makePipe⟩ ::
    match s.host.makePipe with
    | (.error _, _) => []
    | (.ok pipe, h) =>
      ⟨.launch, { s with host := h }, .fork pipe job.command echo⟩ ::
        match h.fork pipe job.command echo with
        | (.error _, h) =>
          [⟨.launch, { s with host := h }, .close (.readEnd pipe)⟩,
            ⟨.launch, { s with host := h.close (.readEnd pipe) }, .close (.writeEnd pipe)⟩]
        | (.ok _, h) => [⟨.launch, { s with host := h }, .close (.writeEnd pipe)⟩]

def launchCalls (command : Command) (echo : Option Bytes) : List Entry :=
  s.spawnCalls { index := s.board.next, command } echo

/-- A reaping asks for each of the children, and stops where that fails. -/
def reapEachCalls : List (Int × Nat) → Session → List Entry
  | [], _ => []
  | (pid, j) :: rest, s =>
    ⟨.wait, s, .collect pid⟩ ::
      match s.host.collect pid with
      | (.error _, _) => []
      | (.ok none, h) => reapEachCalls rest { s with host := h }
      | (.ok (some status), h) =>
        match accountExit { s with host := h } pid j status with
        | (.error _, _) => []
        | (.ok (), s) => reapEachCalls rest s

def noticesCalls : List Entry :=
  ⟨.wait, s, .takeNotices⟩ :: reapEachCalls s.board.running s.takeNotices ++
    match s.reap with
    | (.ok (_ :: _), s) =>
      s.presentCalls .wait (s.display.onReaped s.board.finished s.board.started)
    | _ => []

def showDataCalls (data : Bytes) : List Entry :=
  let (segments, display) := s.display.onData data s.board.finished s.board.started
  { s with display }.presentCalls .wait segments

def showEndCalls : List Entry :=
  let (segments, display) := s.display.onEnd
  { s with display }.presentCalls .wait segments

def endOutputCalls (j : Nat) (job : Job) (child : Nat) : List Entry :=
  s.closeOutputCalls .wait child ++
    let s := { s with host := s.host.closeOutput child, board := s.board.recordDrained j }
    match (s.say (.drained job.index)).retireIf Job.reaped j with
    | (.error _, _) => []
    | (.ok (), s) => s.showEndCalls

/-- A drain reads, and then writes what it read, or closes the pipe at its end. -/
def drainCalls (j : Nat) : List Entry :=
  match s.board.jobs[j]? with
  | none => []
  | some job =>
    match job.output with
    | none => []
    | some child =>
      if job.index ≠ s.board.current then []
      else
        let s := { s with board := s.board.updateJob j fun job => { job with stage := .draining } }
        ⟨.wait, s, .read child chunk⟩ ::
          match s.host.read child chunk with
          | (.error _, _) => []
          | (.ok [], h) => endOutputCalls { s with host := h } j job child
          | (.ok data, h) => showDataCalls { s with host := h } data

def handleCalls (active : Option Nat) (ready : Readiness) : List Entry :=
  (if ready.notices then s.noticesCalls else []) ++
    match if ready.notices then s.handleNotices else (.ok (), s) with
    | (.error _, _) => []
    | (.ok (), s) =>
      match active with
      | some j => if ready.output then s.drainCalls j else []
      | none => []

def waitCalls : List Entry :=
  ⟨.wait, s, .poll s.awaited⟩ ::
    let (ready, h) := s.host.poll s.awaited
    if ready.any then handleCalls { s with host := h } s.board.active ready else []

/-- The calls that close some outputs one after the other. -/
def dropCalls : List Nat → Session → List Entry
  | [], _ => []
  | child :: rest, s => s.closeOutputCalls .cleanUp child ++
      dropCalls rest { s with host := s.host.closeOutput child }

def killCalls : List Int → Session → List Entry
  | [], _ => []
  | pid :: rest, s => ⟨.cleanUp, s, .kill pid Signal.terminate⟩ ::
      killCalls rest { s with host := s.host.kill pid Signal.terminate }

def collectCalls : List Int → Session → List Entry
  | [], _ => []
  | pid :: rest, s => ⟨.cleanUp, s, .collect pid⟩ :: collectCalls rest (s.collectKilled pid)

/-- Giving up closes every output, sends every signal, and then collects. -/
def abandonCalls : List Entry :=
  let s := s.say .aborting
  let t := s.dropOutputs
  let pids := t.board.running.map (·.1)
  dropCalls s.board.openOutputs s ++ killCalls pids t ++ collectCalls pids
    { t with host := pids.foldl (fun h pid => h.kill pid Signal.terminate) t.host }

end Session

namespace Notifier

def setUpCalls (s : Session) : List Entry :=
  ⟨.setUp, s, .makePipe⟩ ::
    match s.host.makePipe with
    | (.error _, _) => []
    | (.ok pipe, h) =>
      [⟨.setUp, { s with host := h },
        .setSignals .notices (some (.writeEnd pipe)) (installCalls pipe)⟩]

def tearDownCalls (n : Notifier) (p : Place) (s : Session) : List Entry :=
  [⟨p, s, .setSignals n.handlerAfter n.previousWakeup n.removeCalls⟩,
    ⟨p, { s with host := n.restored s.host }, .close (.readEnd n.pipe)⟩,
    ⟨p, { s with host := (n.restored s.host).close (.readEnd n.pipe) },
      .close (.writeEnd n.pipe)⟩]

end Notifier

namespace Run

variable (r : Run)

def stepCalls : List Entry :=
  match r.session.board.phase with
  | .filling =>
    match r.source.pull r.leading with
    | (.command c, _) => r.session.launchCalls c (r.echo c)
    | _ => []
  | .waiting => r.session.waitCalls
  | .done => []

/-- The calls of all the steps. -/
def stepsCalls (r : Run) : List Entry :=
  match _h : r.step with
  | none => []
  | some (_, .error _, _) => r.stepCalls
  | some (_, .ok (), r') => r.stepCalls ++ stepsCalls r'
termination_by r.measure
decreasing_by exact step_decreases _h

/-- The calls that follow the steps: the run gives up, or it removes its notifier and shows its
end. -/
def endCalls (n : Notifier) : List Entry :=
  let t := r.steps
  match t.outcome with
  | .error _ => t.final.session.abandonCalls ++ n.tearDownCalls .cleanUp t.final.session.abandon
  | .ok () => n.tearDownCalls .windUp t.final.session ++
      let s := (t.final.onHost n.remove).session
      s.presentCalls .windUp s.display.onFinish

/-- All the calls of a run. -/
def calls : List Entry :=
  Notifier.setUpCalls r.session ++
    match Notifier.install r.session.host with
    | (.error _, _) => []
    | (.ok n, h) =>
      let r := r.onHost fun _ => h
      r.stepsCalls ++ r.endCalls n

end Run

/-! ### The lists are complete -/

namespace Session

variable {p : Place} {s : Session}

theorem calls_write (p : Place) (s : Session) (data : Bytes) (h : Host) :
    Calls h (s.writeCalls p data h) (h.writeAll data).2 := by
  fun_induction Host.writeAll data h with
  | case1 h =>
      rw [writeCalls, dif_pos rfl]
      exact .nil h
  | case2 data h hd e h' hw =>
      rw [writeCalls, dif_neg hd]
      refine .cons rfl ?_
      show Calls (h.write data).2 _ _
      split
      · rw [hw]
        exact .nil h'
      · next heq =>
          rw [hw] at heq
          cases heq
  | case3 data h hd n h' hw ih =>
      rw [writeCalls, dif_neg hd]
      refine .cons rfl ?_
      show Calls (h.write data).2 _ _
      split
      · next heq =>
          rw [hw] at heq
          cases heq
      · next heq =>
          rw [hw] at heq ⊢
          cases heq
          exact ih

theorem calls_present (p : Place) (s : Session) (segments : List Segment) :
    Calls s.host (s.presentCalls p segments) (s.present segments).2.host := by
  have hwrite := calls_write p s (segments.flatMap Segment.bytes) s.host
  unfold present
  split
  all_goals
    next heq =>
    rw [heq] at hwrite
    exact hwrite

theorem calls_showData (s : Session) (data : Bytes) :
    Calls s.host (s.showDataCalls data) (s.showData data).2.host :=
  calls_present .wait { s with
    display := (s.display.onData data s.board.finished s.board.started).2 } _

theorem calls_showEnd (s : Session) : Calls s.host s.showEndCalls s.showEnd.2.host :=
  calls_present .wait { s with display := s.display.onEnd.2 } _

theorem calls_closeOutput (p : Place) (s : Session) (child : Nat) :
    Calls s.host (s.closeOutputCalls p child) (s.host.closeOutput child) := by
  unfold closeOutputCalls Host.closeOutput
  rcases s.host.children[child]? with _ | c
  · exact .nil _
  · exact .one ⟨p, s, .close (.readEnd c.pipe)⟩

theorem calls_spawn (s : Session) (job : Job) (echo : Option Bytes) :
    Calls s.host (s.spawnCalls job echo) (s.host.spawn job echo).2 := by
  unfold spawnCalls Host.spawn
  refine .cons rfl ?_
  show Calls s.host.makePipe.2 _ _
  rcases s.host.makePipe with ⟨e | pipe, h⟩
  · exact .nil h
  refine .cons rfl ?_
  show Calls (h.fork pipe job.command echo).2 _ _
  dsimp only
  rcases h.fork pipe job.command echo with ⟨e | child, h'⟩
  · exact .cons rfl (.one ⟨.launch, { s with host := h'.close (.readEnd pipe) }, _⟩)
  · exact .one ⟨.launch, { s with host := h' }, _⟩

theorem calls_launch (s : Session) (command : Command) (echo : Option Bytes) :
    Calls s.host (s.launchCalls command echo) (s.launch command echo).2.host := by
  have hspawn := calls_spawn s { index := s.board.next, command } echo
  unfold Session.launch
  split
  all_goals
    next heq =>
    rw [heq] at hspawn
    exact hspawn

theorem host_retireIf (s : Session) (condition : Job → Bool) (j : Nat) :
    (s.retireIf condition j).2.host = s.host := by
  unfold retireIf
  split
  · split <;> rfl
  · rfl

theorem calls_reapEach (l : List (Int × Nat)) (s : Session) :
    Calls s.host (reapEachCalls l s) (reapEach l s).2.host := by
  induction l generalizing s with
  | nil => exact .nil _
  | cons x rest ih =>
      obtain ⟨pid, j⟩ := x
      unfold reapEachCalls reapEach
      refine .cons rfl ?_
      show Calls (s.host.collect pid).2 _ _
      rcases s.host.collect pid with ⟨e | _ | status, h⟩
      · exact .nil h
      · exact ih { s with host := h }
      have hhost : (accountExit { s with host := h } pid j status).2.host = h :=
        host_retireIf _ _ _
      dsimp only
      generalize accountExit { s with host := h } pid j status = r at hhost ⊢
      obtain ⟨e | _, t⟩ := r
      · obtain rfl : t.host = h := hhost
        exact .nil _
      · obtain rfl : t.host = h := hhost
        have hrest := ih t
        dsimp only
        generalize reapEach rest t = r at hrest ⊢
        obtain ⟨e | js, t'⟩ := r <;> exact hrest

theorem calls_notices (s : Session) :
    Calls s.host s.noticesCalls s.handleNotices.2.host := by
  have hreap := calls_reapEach s.board.running s.takeNotices
  unfold noticesCalls handleNotices
  refine .append (.cons rfl hreap) ?_
  show Calls s.reap.2.host _ _
  rcases s.reap with ⟨e | _ | ⟨j, js⟩, t⟩
  · exact .nil _
  · exact .nil _
  · exact calls_present .wait t _

theorem calls_endOutput (s : Session) (j : Nat) (job : Job) (child : Nat) :
    Calls s.host (s.endOutputCalls j job child) (s.endOutput j job child).2.host := by
  unfold endOutputCalls endOutput
  refine (calls_closeOutput .wait s child).append ?_
  dsimp only
  have hhost := host_retireIf (({ s with
    host := s.host.closeOutput child
    board := s.board.recordDrained j } : Session).say (.drained job.index)) Job.reaped j
  generalize Session.retireIf _ Job.reaped j = r at hhost ⊢
  obtain ⟨e | _, t⟩ := r
  all_goals
    have hhost : t.host = s.host.closeOutput child := hhost
    rw [← hhost]
  · exact .nil _
  · exact calls_showEnd t

theorem calls_drain (s : Session) (j : Nat) : Calls s.host (s.drainCalls j) (s.drain j).2.host := by
  unfold drainCalls Session.drain
  rcases s.board.jobs[j]? with _ | job
  · exact .nil _
  dsimp only
  rcases job.output with _ | child
  · exact .nil _
  dsimp only
  by_cases hne : job.index ≠ s.board.current
  · rw [if_pos hne, if_pos hne]
    exact .nil _
  rw [if_neg hne, if_neg hne]
  refine .cons rfl ?_
  show Calls (s.host.read child chunk).2 _ _
  rcases s.host.read child chunk with ⟨e | _ | ⟨b, data⟩, h⟩
  · exact .nil h
  · exact calls_endOutput { s.began j with host := h } j job child
  · exact calls_showData { s.began j with host := h } (b :: data)

theorem calls_handle (s : Session) (active : Option Nat) (ready : Readiness) :
    Calls s.host (s.handleCalls active ready) (s.handle active ready).2.host := by
  have hfirst : Calls s.host (if ready.notices then s.noticesCalls else [])
      (if ready.notices then s.handleNotices else (.ok (), s)).2.host := by
    cases ready.notices with
    | true => exact calls_notices s
    | false => exact .nil _
  unfold handleCalls Session.handle
  refine hfirst.append ?_
  rcases (if ready.notices then s.handleNotices else (.ok (), s)) with ⟨e | _, t⟩
  · exact .nil _
  cases active with
  | none => exact .nil _
  | some j =>
      dsimp only
      cases ready.output with
      | true => exact calls_drain t j
      | false => exact .nil _

theorem calls_wait (s : Session) : Calls s.host s.waitCalls s.wait.2.host := by
  unfold waitCalls Session.wait
  refine .cons rfl ?_
  show Calls (s.host.poll s.awaited).2 _ _
  rcases s.host.poll s.awaited with ⟨ready, h⟩
  dsimp only
  cases ready.any with
  | true => exact calls_handle { s with host := h } _ ready
  | false => exact .nil h

theorem calls_drop (is : List Nat) (s : Session) :
    Calls s.host (dropCalls is s) (is.foldl Host.closeOutput s.host) := by
  induction is generalizing s with
  | nil => exact .nil _
  | cons i is ih =>
      exact (calls_closeOutput .cleanUp s i).append (ih { s with host := s.host.closeOutput i })

theorem calls_kill (pids : List Int) (s : Session) : Calls s.host (killCalls pids s)
    (pids.foldl (fun h pid => h.kill pid Signal.terminate) s.host) := by
  induction pids generalizing s with
  | nil => exact .nil _
  | cons pid pids ih =>
      exact .cons rfl (ih { s with host := s.host.kill pid Signal.terminate })

theorem calls_collect (pids : List Int) (s : Session) :
    Calls s.host (collectCalls pids s) (pids.foldl collectKilled s).host := by
  induction pids generalizing s with
  | nil => exact .nil _
  | cons pid pids ih =>
      refine .cons rfl ?_
      show Calls (s.host.collect pid).2 _ _
      rw [← s.collectKilled_host pid]
      exact ih _

theorem calls_abandon (s : Session) : Calls s.host s.abandonCalls s.abandon.host := by
  let t := (s.say .aborting).dropOutputs
  refine (Calls.append ?_ (calls_kill _ t)).append (calls_collect _ { t with
    host := (t.board.running.map (·.1)).foldl (fun h pid => h.kill pid Signal.terminate) t.host })
  exact calls_drop _ (s.say .aborting)

end Session

theorem Notifier.calls_setUp (s : Session) :
    Calls s.host (Notifier.setUpCalls s) (Notifier.install s.host).2 := by
  unfold setUpCalls install
  refine .cons rfl ?_
  show Calls s.host.makePipe.2 _ _
  rcases s.host.makePipe with ⟨e | pipe, h⟩
  · exact .nil h
  · exact .one ⟨.setUp, { s with host := h }, _⟩

theorem Notifier.calls_tearDown (n : Notifier) (p : Place) (s : Session) :
    Calls s.host (n.tearDownCalls p s) (n.remove s.host) :=
  .cons rfl (.cons rfl (.one ⟨p, { s with host := (n.restored s.host).close _ }, _⟩))

namespace Run

theorem calls_launch (r : Run) : Calls r.session.host
    (match r.source.pull r.leading with
      | (.command c, _) => r.session.launchCalls c (r.echo c)
      | _ => []) r.launch.2.session.host := by
  unfold Run.launch
  rcases r.source.pull r.leading with ⟨c | ⟨fault, line⟩ | _, source⟩
  · exact Session.calls_launch r.session c (r.echo c)
  · exact .nil _
  · exact .nil _

theorem calls_step {r r' : Run} {kind : StepKind} {result : Except Failure Unit}
    (hs : r.step = some (kind, result, r')) :
    Calls r.session.host r.stepCalls r'.session.host := by
  unfold stepCalls
  rcases step_cases hs with ⟨hphase, heq⟩ | ⟨hphase, heq⟩
  · rw [hphase, show r' = r.launch.2 by rw [heq]]
    exact r.calls_launch
  · rw [hphase, show r' = r.wait.2 by rw [heq]]
    exact r.session.calls_wait

theorem stepsCalls_of_done {r : Run} (hs : r.step = none) : r.stepsCalls = [] := by
  rw [stepsCalls]
  split
  · rfl
  all_goals
    next heq =>
    rw [hs] at heq
    cases heq

theorem stepsCalls_of_failed {r r' : Run} {kind : StepKind} {e : Failure}
    (hs : r.step = some (kind, .error e, r')) : r.stepsCalls = r.stepCalls := by
  rw [stepsCalls]
  split
  · next heq =>
      rw [hs] at heq
      cases heq
  · rfl
  · next heq =>
      rw [hs] at heq
      cases heq

theorem stepsCalls_of_next {r r' : Run} {kind : StepKind} (hs : r.step = some (kind, .ok (), r')) :
    r.stepsCalls = r.stepCalls ++ r'.stepsCalls := by
  rw [stepsCalls]
  split
  · next heq =>
      rw [hs] at heq
      cases heq
  · next heq =>
      rw [hs] at heq
      cases heq
  · next heq =>
      rw [hs] at heq
      cases heq
      rfl

theorem calls_steps (r : Run) : Calls r.session.host r.stepsCalls r.steps.final.session.host := by
  fun_induction steps r with
  | case1 r hs =>
      rw [stepsCalls_of_done hs]
      exact .nil _
  | case2 r kind e r' hs =>
      rw [stepsCalls_of_failed hs]
      exact calls_step hs
  | case3 r kind r' hs t ih =>
      rw [stepsCalls_of_next hs]
      exact (calls_step hs).append ih

theorem calls_conclude (r : Run) : Calls r.session.host
    (r.session.presentCalls .windUp r.session.display.onFinish) r.conclude.2.session.host := by
  have hpresent := Session.calls_present .windUp r.session r.session.display.onFinish
  unfold conclude
  split
  all_goals
    next heq =>
    rw [show r.session.present _ = _ from heq] at hpresent
    exact hpresent

/-- The calls of a run lead from the host that it finds to the one that it leaves. -/
theorem calls_execute (r₀ : Run) :
    Calls r₀.session.host r₀.calls r₀.execute.final.session.host := by
  have hinstall := Notifier.calls_setUp r₀.session
  unfold calls execute
  refine hinstall.append ?_
  rcases Notifier.install r₀.session.host with ⟨e | n, h⟩
  · exact .nil h
  have hsteps := (r₀.onHost fun _ => h).calls_steps
  refine hsteps.append ?_
  dsimp only
  unfold endCalls underNotifier
  rcases (r₀.onHost fun _ => h).steps with ⟨visits, e | _, final⟩
  · exact (Session.calls_abandon final.session).append (Notifier.calls_tearDown n .cleanUp _)
  · refine (Notifier.calls_tearDown n .windUp final.session).append ?_
    exact (final.onHost n.remove).calls_conclude

end Run

end OrderedJobs
