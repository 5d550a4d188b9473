import OrderedJobs.Proofs.Waiting
import OrderedJobs.Run

/-! # Reached states

The states a run goes through: that in which its notifier has been installed, and those after steps
that succeed (`Run.Reached`).  In all of them the session is sound, every pipe but the notifier's
belongs to a child, and ended children are announced (`Run.Steady`); what was configured stays as it
was (`Run.Fixed`).  What a step can do from there is said once (`Run.Stepping`).  A step that fails
leaves a sound session too, and only the input or the operating system can make it fail
(`Steady.step`). -/

namespace OrderedJobs

/-- The operating system as a run finds it in a process that holds no pipes yet. -/
def Host.fresh (platform : Platform) (rounds : List (List Event)) (handler : Handler) : Host :=
  { platform, rounds, handler }

/-- The operating system as a run finds it in a process that may hold pipes already, and one of them
for exit notices. -/
def Host.found (platform : Platform) (rounds : List (List Event)) (handler : Handler)
    (wakeup : Option Descriptor) (o : Holdings) : Host :=
  { platform, rounds, handler, wakeup, pipes := o.pipes, descriptors := o.ends }

/-- A failure for which the input or the operating system is to blame. -/
inductive Failure.External : Failure → Prop
  | badLine (fault : LineFault) (line : Bytes) : External (.badLine fault line)
  | system (operation : Operation) (error : OsError) : External (.system operation error)

/-! ### Newborn children are announced -/

namespace Host

variable {h : Host} {pipe : Nat} {command : Command} {echo : Option Bytes}

theorem notices_withChild (hw : h.wakeup ≠ none) : (h.withChild pipe command echo).notices =
    h.notices + (h.newChild pipe command echo).status.isSome.toNat := by
  unfold withChild
  dsimp only
  cases hs : (h.newChild pipe command echo).status.isSome with
  | true =>
      rw [if_pos rfl]
      exact notices_notify (h := { h with
        forkCalls := h.forkCalls + 1
        children := h.children ++ [h.newChild pipe command echo] }) hw 1
  | false => rfl

theorem Announced.withChild (ha : h.Announced) (hw : h.wakeup ≠ none) :
    (h.withChild pipe command echo).Announced := by
  intro i c hc hs hcoll
  rw [notices_withChild hw]
  rw [children_withChild] at hc
  rcases getElem?_concat_cases hc with hc | ⟨-, rfl⟩
  · have := ha i c hc hs hcoll
    omega
  · rw [Option.isSome_iff_ne_none.2 hs]
    exact Nat.succ_pos _

theorem Announced.grown (ha : h.Announced) (hw : h.wakeup ≠ none) :
    (h.grown pipe command echo).Announced := by
  have hkeep : (h.withChild pipe command echo).wakeup = h.wakeup := by
    show (h.withChild pipe command echo).own.wakeup = _
    rw [own_withChild]
    rfl
  exact (ha.withChild hw).foldl_occur _ (hkeep ▸ hw)

end Host

/-! ### The start and the end of the input -/

namespace Notifier

/-- The host with a notifier installed. -/
def installed (h : Host) : Host :=
  { h.opened with
    handler := .notices
    wakeup := some (.writeEnd h.pipes)
    signalCalls := h.signalCalls ++ installCalls h.pipes }

variable {h host : Host} {n : Notifier}

theorem install_error {e : OsError} (hn : install h = (.error e, host)) :
    h.platform.faults.pipe.error? h.pipeCalls = some e ∧
      host = { h with pipeCalls := h.pipeCalls + 1 } := by
  unfold install at hn
  cases hp : h.platform.faults.pipe.error? h.pipeCalls with
  | some e' =>
      rw [Host.makePipe_error hp] at hn
      cases hn
      exact ⟨rfl, rfl⟩
  | none =>
      rw [Host.makePipe_ok hp] at hn
      cases hn

theorem install_ok (hn : install h = (.ok n, host)) :
    n = ⟨h.pipes, h.handler, h.wakeup⟩ ∧ host = installed h := by
  unfold install at hn
  cases hp : h.platform.faults.pipe.error? h.pipeCalls with
  | some e =>
      rw [Host.makePipe_error hp] at hn
      cases hn
  | none =>
      rw [Host.makePipe_ok hp] at hn
      cases hn
      exact ⟨rfl, rfl⟩

/-- While there is no fault in the making of its pipe, a notifier can be installed. -/
theorem pipe_of_install (hn : install h = (.ok n, host)) :
    h.platform.faults.pipe.error? h.pipeCalls = none := by
  unfold install at hn
  cases hp : h.platform.faults.pipe.error? h.pipeCalls with
  | some e =>
      rw [Host.makePipe_error hp] at hn
      cases hn
  | none => rfl

/-- The host with the signals put back as the notifier found them. -/
def restored (n : Notifier) (h : Host) : Host :=
  { h with
    wakeup := n.previousWakeup
    handler := n.handlerAfter
    signalCalls := h.signalCalls ++ n.removeCalls }

/-- Removing a notifier puts back what it found, and changes nothing else but the descriptors. -/
theorem remove_frame (n : Notifier) (h : Host) : ∃ descriptors misused, n.remove h = { h with
    wakeup := n.previousWakeup
    handler := n.handlerAfter
    signalCalls := h.signalCalls ++ n.removeCalls
    descriptors := descriptors
    misused := misused } := by
  obtain ⟨descriptors, misused, heq⟩ := (n.restored h).close_frame (.readEnd n.pipe)
  obtain ⟨descriptors', misused', heq'⟩ :=
    ((n.restored h).close (.readEnd n.pipe)).close_frame (.writeEnd n.pipe)
  refine ⟨descriptors', misused', ?_⟩
  show ((n.restored h).close (.readEnd n.pipe)).close (.writeEnd n.pipe) = _
  rw [heq', heq]
  rfl

theorem children_remove (n : Notifier) (h : Host) : (n.remove h).children = h.children := by
  obtain ⟨descriptors, misused, heq⟩ := n.remove_frame h
  rw [heq]

end Notifier

theorem Session.Sound.exhaust {s : Session} {o : Holdings} (h : s.Sound o) :
    (Run.exhaust s).Sound o where
  board := h.board.exhaust
  children := h.children
  fits := by
    intro i c hc
    have hfits := h.fits i c hc
    exact ⟨hfits.pipe, hfits.reaped, hfits.ended, hfits.drained, hfits.unread⟩
  descriptors := h.descriptors
  misused := h.misused
  wakeup := h.wakeup
  ledger := by
    refine h.ledger.congr rfl ?_ rfl rfl (fun _ => rfl) fun _ _ => rfl
    exact (Journal.exits_append _ _).trans (List.append_nil _)

namespace Run

variable {r r' r₀ : Run} {o : Holdings}

/-- The states of the loop of a run: that after the installation of the notifier, and those after
each step that succeeds. -/
inductive Reached (r₀ : Run) : Run → Prop
  | start {n : Notifier} {host : Host} (h : Notifier.install r₀.session.host = (.ok n, host)) :
      Reached r₀ (r₀.onHost fun _ => host)
  | step {r r' : Run} {kind : StepKind} (h : Reached r₀ r)
      (hs : r.step = some (kind, .ok (), r')) : Reached r₀ r'

/-- What holds of a run whenever its loop goes round. -/
structure Steady (r : Run) (o : Holdings := {}) : Prop where
  sound : r.session.Sound o
  pipes : r.session.host.pipes = r.session.host.children.length + 1 + o.pipes
  announced : r.session.host.Announced

/-- What is fixed for the length of a run is the same in two states of it. -/
structure Fixed (r r' : Run) : Prop where
  leading : r'.leading = r.leading
  quiet : r'.quiet = r.quiet
  limits : r'.session.board.limits = r.session.board.limits
  platform : r'.session.host.platform = r.session.host.platform
  progress : r'.session.display.progress = r.session.display.progress

theorem Fixed.trans {r₁ r₂ r₃ : Run} (h : Fixed r₁ r₂) (k : Fixed r₂ r₃) : Fixed r₁ r₃ :=
  ⟨k.leading.trans h.leading, k.quiet.trans h.quiet, k.limits.trans h.limits,
    k.platform.trans h.platform, k.progress.trans h.progress⟩

theorem steady_start (c : Config) (limits : Limits) (platform : Platform)
    (rounds : List (List Event)) (handler : Handler) (wakeup : Option Descriptor) (o : Holdings)
    (stream : Bytes) :
    Steady ((prepare c limits (Host.found platform rounds handler wakeup o) stream).onHost
      fun _ => Notifier.installed (Host.found platform rounds handler wakeup o)) o where
  sound := {
    board := Board.sound_empty limits
    children := rfl
    fits := fun i c hc => by cases hc
    descriptors := rfl
    misused := rfl
    wakeup := rfl
    ledger := {
      toHandedOnce := ⟨List.nodup_nil, fun i => by
        constructor
        · intro hmem; cases hmem
        · intro hany; cases hany⟩
      exits := rfl
      exitCode := rfl
      finished := rfl } }
  pipes := Nat.add_comm o.pipes 1
  announced := fun i c hc => by cases hc

/-! ### Steps -/

theorem phase_filling_launch {b : Board} (h : b.phase = .filling) : b.canLaunch = true := by
  unfold Board.phase at h
  split at h
  · cases h
  · split at h
    · next hboth => exact (Bool.and_eq_true _ _ ▸ hboth).2
    · cases h

theorem step_of_filling (h : r.session.board.phase = .filling) :
    r.step = some (.launch, r.launch) := by
  unfold step
  rw [h]

theorem step_of_waiting (h : r.session.board.phase = .waiting) : r.step = some (.wait, r.wait) := by
  unfold step
  rw [h]

/-- A launch that succeeds leads to a state that is reached. -/
theorem Reached.launch {r₀ : Run} (h : Reached r₀ r) (hphase : r.session.board.phase = .filling)
    (hok : r.launch.1.isOk = true) : Reached r₀ r.launch.2 := by
  have hs := step_of_filling hphase
  generalize r.launch = x at hs hok ⊢
  obtain ⟨_ | _, r'⟩ := x
  · cases hok
  · exact h.step hs

/-- A wait that succeeds leads to a state that is reached. -/
theorem Reached.wait {r₀ : Run} (h : Reached r₀ r) (hphase : r.session.board.phase = .waiting)
    (hok : r.wait.1.isOk = true) : Reached r₀ r.wait.2 := by
  have hs := step_of_waiting hphase
  generalize r.wait = x at hs hok ⊢
  obtain ⟨_ | _, r'⟩ := x
  · cases hok
  · exact h.step hs

/-- A step launches a job, or it waits. -/
theorem step_cases {kind : StepKind} {result : Except Failure Unit}
    (h : r.step = some (kind, result, r')) :
    (r.session.board.phase = .filling ∧ r.launch = (result, r')) ∨
      (r.session.board.phase = .waiting ∧ r.wait = (result, r')) := by
  unfold step at h
  split at h
  · next hphase => exact .inl ⟨hphase, (Prod.mk.inj (Option.some.inj h)).2⟩
  · next hphase => exact .inr ⟨hphase, (Prod.mk.inj (Option.some.inj h)).2⟩
  · cases h

theorem phase_of_step_none {r : Run} (h : r.step = none) : r.session.board.phase = .done := by
  unfold step at h
  split at h
  · cases h
  · cases h
  · assumption

theorem isDone_iff {b : Board} : b.isDone = true ↔
    b.exhausted = true ∧ b.running = [] ∧ b.current = b.next := by
  unfold Board.isDone
  rw [Bool.and_eq_true, Bool.and_eq_true, List.isEmpty_iff, decide_eq_true_eq, and_assoc]

/-- A run is done when the input is exhausted, nothing runs and everything is drained. -/
theorem done_of_step_none {r : Run} (h : r.step = none) :
    r.session.board.exhausted = true ∧ r.session.board.running = [] ∧
      r.session.board.current = r.session.board.next := by
  have hphase := phase_of_step_none h
  rw [← isDone_iff]
  unfold Board.phase at hphase
  split at hphase
  · assumption
  · split at hphase <;> cases hphase

/-- All that a step can do: it finds the end of the input, or a line that is no command; the pipe or
the child of a launch cannot be made; a job is launched; or the step waits. -/
inductive Stepping (r : Run) : Except Failure Unit → Run → Prop
  | exhausted (source : Source) (hphase : r.session.board.phase = .filling)
      (hpull : r.source.pull r.leading = (.exhausted, source)) :
      Stepping r (.ok ()) { r with source, session := exhaust r.session }
  | refused (fault : LineFault) (line : Bytes) (source : Source)
      (hphase : r.session.board.phase = .filling)
      (hpull : r.source.pull r.leading = (.refused fault line, source)) :
      Stepping r (.error (.badLine fault line)) { r with source }
  | noPipe (e : OsError) (command : Command) (source : Source)
      (hphase : r.session.board.phase = .filling)
      (hpull : r.source.pull r.leading = (.command command, source))
      (hfault : r.session.host.platform.faults.pipe.error? r.session.host.pipeCalls = some e) :
      Stepping r (.error (.system .pipe e)) { r with
        source
        session := { r.session with
          host := { r.session.host with pipeCalls := r.session.host.pipeCalls + 1 } } }
  | noChild (e : OsError) (command : Command) (source : Source)
      (hphase : r.session.board.phase = .filling)
      (hpull : r.source.pull r.leading = (.command command, source))
      (hfault : r.session.host.platform.faults.fork.error? r.session.host.forkCalls = some e) :
      Stepping r (.error (.system .fork e)) { r with
        source
        session := { r.session with
          host := { r.session.host with
            pipeCalls := r.session.host.pipeCalls + 1
            pipes := r.session.host.pipes + 1
            forkCalls := r.session.host.forkCalls + 1 } } }
  | launched (command : Command) (source : Source) (hphase : r.session.board.phase = .filling)
      (hpull : r.source.pull r.leading = (.command command, source)) :
      Stepping r (.ok ()) { r with
        source
        session := r.session.launched command (r.echo command) }
  | waited {result : Except Failure Unit} {session : Session}
      (hphase : r.session.board.phase = .waiting) (hwait : r.session.wait = (result, session)) :
      Stepping r result { r with session }

theorem Steady.stepping (h : r.Steady o) {kind : StepKind} {result : Except Failure Unit}
    (hs : r.step = some (kind, result, r')) : Stepping r result r' := by
  rcases step_cases hs with ⟨hphase, heq⟩ | ⟨hphase, heq⟩
  · suffices hlaunch : Stepping r r.launch.1 r.launch.2 by
      rw [heq] at hlaunch
      exact hlaunch
    unfold Run.launch
    split
    · next source hpull => exact .exhausted source hphase hpull
    · next fault line source hpull => exact .refused fault line source hphase hpull
    · next command source hpull =>
        dsimp only
        rcases h.sound.launch_cases h.pipes command (r.echo command) with
          ⟨e, hfault, heq⟩ | ⟨e, hfault, heq⟩ | heq
        all_goals rw [heq]
        · exact .noPipe e command source hphase hpull hfault
        · exact .noChild e command source hphase hpull hfault
        · exact .launched command source hphase hpull
  · cases heq
    exact .waited hphase rfl

/-- What a step leaves, whether it fails or not. -/
structure Stepped (r : Run) (result : Except Failure Unit) (r' : Run) (o : Holdings := {}) :
    Prop where
  sound : r'.session.Sound o
  fixed : Fixed r r'
  external : ∀ e, result = .error e → e.External
  steady : result = .ok () → r'.Steady o

theorem fixed_launched (r : Run) (source : Source) (command : Command) (echo : Option Bytes) :
    Fixed r { r with source, session := r.session.launched command echo } :=
  ⟨rfl, rfl, rfl, Host.grown_keeps Host.platform (fun _ => rfl) rfl, rfl⟩

theorem Steady.launched (h : r.Steady o) (hc : r.session.board.canLaunch = true) (source : Source)
    (command : Command) (echo : Option Bytes) :
    Steady { r with source, session := r.session.launched command echo } o where
  sound := h.sound.launched h.pipes hc
  pipes := by
    show (r.session.host.opened.grown _ command echo).pipes =
      (r.session.host.opened.grown _ command echo).children.length + 1 + o.pipes
    rw [Host.length_grown, Host.grown_keeps Host.pipes (fun _ => rfl) rfl]
    show r.session.host.pipes + 1 = r.session.host.children.length + 1 + 1 + o.pipes
    rw [h.pipes]
    omega
  announced := by
    have hopened : r.session.host.opened.Announced := h.announced
    exact hopened.grown h.sound.wakeup_ne_none

theorem Steady.wait (h : r.Steady o) (hphase : r.session.board.phase = .waiting) :
    Stepped r r.wait.1 r.wait.2 o := by
  obtain ⟨hsound, hhandled, hsys, hclear⟩ := h.sound.wait h.announced hphase
  have hlater := h.sound.later_polled
  refine ⟨hsound, ⟨rfl, rfl, hhandled.limits, hhandled.host.platform.trans hlater.platform,
    hhandled.progress⟩, fun e he => ?_, fun hok => ⟨hsound, ?_, (hclear hok).announced⟩⟩
  · obtain ⟨operation, error, rfl⟩ := hsys e he
    exact .system operation error
  · show r.session.wait.2.host.pipes = r.session.wait.2.host.children.length + 1 + o.pipes
    rw [hhandled.host.pipes, hhandled.host.length, hlater.pipes, hlater.length]
    exact h.pipes

/-- A step keeps what holds of a run, and the fault is not ours if it fails. -/
theorem Steady.step (h : r.Steady o) {kind : StepKind} {result : Except Failure Unit}
    (hs : r.step = some (kind, result, r')) : Stepped r result r' o := by
  cases h.stepping hs with
  | exhausted source =>
      refine ⟨h.sound.exhaust, ⟨rfl, rfl, rfl, rfl, rfl⟩, fun e he => (by cases he), fun _ => ?_⟩
      exact ⟨h.sound.exhaust, h.pipes, h.announced⟩
  | refused fault line source =>
      refine ⟨h.sound, ⟨rfl, rfl, rfl, rfl, rfl⟩, fun e he => ?_, fun hok => by cases hok⟩
      cases he
      exact .badLine fault line
  | noPipe e =>
      refine ⟨h.sound.congr_host rfl rfl rfl rfl rfl, ⟨rfl, rfl, rfl, rfl, rfl⟩, fun e' he => ?_,
        fun hok => by cases hok⟩
      cases he
      exact .system _ _
  | noChild e =>
      refine ⟨h.sound.congr_host rfl rfl rfl rfl rfl, ⟨rfl, rfl, rfl, rfl, rfl⟩, fun e' he => ?_,
        fun hok => by cases hok⟩
      cases he
      exact .system _ _
  | launched command source hphase =>
      have hsteady := h.launched (phase_filling_launch hphase) source command (r.echo command)
      exact ⟨hsteady.sound, r.fixed_launched source command _, fun e he => (by cases he),
        fun _ => hsteady⟩
  | waited hphase hwait =>
      have hstepped := h.wait hphase
      unfold Run.wait at hstepped
      rw [hwait] at hstepped
      exact hstepped

/-! ### Runs -/

section found

variable {c : Config} {limits : Limits} {platform : Platform} {rounds : List (List Event)}
  {handler : Handler} {wakeup : Option Descriptor} {stream : Bytes}

/-- Whatever a run starts on, it is steady in all the states it reaches. -/
theorem steady_of_found
    (h : Reached (prepare c limits (Host.found platform rounds handler wakeup o) stream) r) :
    r.Steady o ∧
      Fixed (prepare c limits (Host.found platform rounds handler wakeup o) stream) r := by
  induction h with
  | start hn =>
      obtain ⟨-, rfl⟩ := Notifier.install_ok hn
      exact ⟨steady_start c limits platform rounds handler wakeup o stream,
        ⟨rfl, rfl, rfl, rfl, rfl⟩⟩
  | step _ hs ih =>
      obtain ⟨hsteady, hfixed⟩ := ih
      have hstep := hsteady.step hs
      exact ⟨hstep.steady rfl, hfixed.trans hstep.fixed⟩

theorem sound_of_found
    (h : Reached (prepare c limits (Host.found platform rounds handler wakeup o) stream) r) :
    r.session.Sound o ∧ r.session.board.limits = limits := by
  obtain ⟨hsteady, hfixed⟩ := steady_of_found h
  exact ⟨hsteady.sound, hfixed.limits⟩

/-- The session is sound after a step that fails, too. -/
theorem sound_of_step {kind : StepKind} {result : Except Failure Unit}
    (h : Reached (prepare c limits (Host.found platform rounds handler wakeup o) stream) r)
    (hs : r.step = some (kind, result, r')) :
    r'.session.Sound o ∧ r'.session.board.limits = limits := by
  obtain ⟨hsteady, hfixed⟩ := steady_of_found h
  have hstep := hsteady.step hs
  exact ⟨hstep.sound, (hfixed.trans hstep.fixed).limits⟩

/-- In particular where the process holds no pipes yet. -/
theorem steady_of_reached
    (h : Reached (prepare c limits (Host.fresh platform rounds handler) stream) r) :
    r.Steady ∧ Fixed (prepare c limits (Host.fresh platform rounds handler) stream) r :=
  steady_of_found (o := {}) h

end found

end Run

end OrderedJobs
