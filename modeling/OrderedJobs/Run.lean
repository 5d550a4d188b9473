import OrderedJobs.Config.Basic
import OrderedJobs.Session.Abandon
import OrderedJobs.Session.Launch
import OrderedJobs.Session.Measure
import OrderedJobs.Session.Notifier
import OrderedJobs.Source

/-! # Runs

A run takes commands from a source and runs them on a session.  It is in one of three phases: it
launches one more job while that is admitted and there is input (*filling*), waits for notices and
output otherwise (*waiting*), and ends when the input is exhausted, nothing runs and everything is
drained (*done*).  A failure of a step ends the run; whatever is under way is then abandoned.

Every step makes progress (`step_decreases`), so a run ends on every input: a launch reads a line or
finds the end of the input, and a wait uses up a round of events, settles a child, or takes from
what is on hand. -/

namespace OrderedJobs

structure Run where
  /-- The arguments that lead every command. -/
  leading : Command
  /-- Commands are not echoed. -/
  quiet : Bool
  source : Source
  session : Session

/-- What a step of a run does. -/
inductive StepKind where
  | launch
  | wait
deriving DecidableEq, Repr

/-- A step that was made: the run after it, and whether it failed. -/
structure Visit where
  kind : StepKind
  after : Run
  failed : Bool

/-- The steps of a run, how the last of them ended, and the run after it. -/
structure Trace where
  visits : List Visit
  outcome : Except Failure Unit
  final : Run

namespace Run

variable (r : Run)

/-- What is echoed of a command. -/
def echo (command : Command) : Option Bytes :=
  if r.quiet then none else some (command.echo r.session.display.progress)

/-- Notes that there is no more input. -/
def exhaust (s : Session) : Session :=
  { s with board := { s.board with exhausted := true } }.say .exhausted

/-- Reads a line and launches its command. -/
def launch : Except Failure Unit × Run :=
  match r.source.pull r.leading with
  | (.exhausted, source) => (.ok (), { r with source, session := exhaust r.session })
  | (.refused fault line, source) => (.error (.badLine fault line), { r with source })
  | (.command c, source) =>
    let (result, session) := r.session.launch c (r.echo c)
    (result, { r with source, session })

/-- Waits until something is ready, and handles it. -/
def wait : Except Failure Unit × Run :=
  let (result, session) := r.session.wait
  (result, { r with session })

/-- The next step, unless the run is done. -/
def step : Option (StepKind × Except Failure Unit × Run) :=
  match r.session.board.phase with
  | .filling => some (.launch, r.launch)
  | .waiting => some (.wait, r.wait)
  | .done => none

/-! ### Every step makes progress -/

/-- The input still to be read, its end included. -/
def pending : Nat := r.source.rest.length + (!r.session.board.exhausted).toNat

theorem launch_progress {r r' : Run} (hr : r.session.board.exhausted = false)
    (h : r.launch = (.ok (), r')) : r'.pending < r.pending := by
  unfold launch at h
  split at h
  · next source hp =>
    cases h
    have hrest : source.rest = r.source.rest := by
      unfold Source.pull at hp
      split at hp
      · cases hp; rfl
      · split at hp
        · cases hp; rfl
        · dsimp only at hp
          split at hp <;> cases hp
    simp [pending, exhaust, Session.say, hr, hrest]
  · cases h
  · next c source hp =>
    have hlt := Source.length_pull hp
    dsimp only at h
    have hs : (r.session.launch c (r.echo c)).2.board.exhausted = r.session.board.exhausted := by
      unfold Session.launch
      split
      · rfl
      · dsimp only [Board.enroll, Board.register, Board.placeJob, Board.addJob, Board.setSlot]
    have hr' := congrArg Prod.snd h
    dsimp only at hr'
    subst hr'
    simp only [pending, hs]
    omega

theorem phase_filling {b : Board} (h : b.phase = .filling) : b.exhausted = false := by
  unfold Board.phase at h
  split at h
  · cases h
  · split at h
    · next hc =>
      rw [Bool.and_eq_true] at hc
      simpa using hc.1
    · cases h

/-- What bounds the steps to come, the more important first. -/
def measure : Nat × Nat × Nat × Nat :=
  (r.pending, r.session.host.rounds.length, r.session.host.unsettled, r.session.onHand)

theorem step_decreases {r r' : Run} {kind : StepKind} (h : r.step = some (kind, .ok (), r')) :
    Prod.Lex (· < ·) (Prod.Lex (· < ·) (Prod.Lex (· < ·) (· < ·))) r'.measure r.measure := by
  unfold step at h
  split at h
  · next hph =>
    simp only [Option.some.injEq, Prod.mk.injEq] at h
    exact .left _ _ (launch_progress (phase_filling hph) h.2)
  · simp only [Option.some.injEq, Prod.mk.injEq] at h
    have hw : r.session.wait.1 = .ok () := congrArg Prod.fst h.2
    have hr' : r.wait.2 = r' := congrArg Prod.snd h.2
    subst hr'
    have hp := Session.wait_progress (Prod.ext hw rfl : r.session.wait = (.ok (), r.session.wait.2))
    have hpend : ({ r with session := r.session.wait.2 } : Run).pending = r.pending := by
      simp only [pending, hp.1]
    unfold measure
    show Prod.Lex _ _ (({ r with session := r.session.wait.2 } : Run).pending, _, _, _) _
    rw [hpend]
    refine .right _ ?_
    rcases hp.2 with hlt | ⟨heq, hlt | ⟨heq', hlt⟩⟩
    · exact .left _ _ hlt
    · rw [show r.wait.2.session.host.rounds.length = _ from heq]
      exact .right _ (.left _ _ hlt)
    · rw [show r.wait.2.session.host.rounds.length = _ from heq,
        show r.wait.2.session.host.unsettled = _ from heq']
      exact .right _ (.right _ hlt)
  · cases h

/-- Makes steps until the run is done or a step fails. -/
def steps (r : Run) : Trace :=
  match _h : r.step with
  | none => ⟨[], .ok (), r⟩
  | some (kind, .error e, r') => ⟨[⟨kind, r', true⟩], .error e, r'⟩
  | some (kind, .ok (), r') =>
    let t := steps r'
    ⟨⟨kind, r', false⟩ :: t.visits, t.outcome, t.final⟩
termination_by r.measure
decreasing_by exact step_decreases _h

/-! ### A whole run -/

/-- What a run leaves: the aggregate exit code or the failure, the steps, and the final state. -/
structure Result where
  outcome : Except Failure Int
  visits : List Visit
  final : Run

/-- A run before its first step. -/
def prepare (config : Config) (limits : Limits) (host : Host) (stream : Bytes) : Run :=
  { leading := config.leading
    quiet := config.quiet
    source := { rest := stream }
    session :=
      { host
        board := .empty limits
        display := { progress := config.showsProgress host.platform.terminal }
        journal := [.starting config.toText] } }

/-- Changes the session of a run. -/
def onSession (f : Session → Session) : Run := { r with session := f r.session }

/-- Changes the host of a run. -/
def onHost (f : Host → Host) : Run := r.onSession fun s => { s with host := f s.host }

/-- The end of a run whose steps all succeeded. -/
def conclude : Except Failure Int × Run :=
  match r.session.finish with
  | (.error e, s) => (.error e, { r with session := s })
  | (.ok (), s) =>
    let b := s.board
    (.ok b.exitCode, { r with session := s.say (.concluded b.finished b.started b.exitCode) })

/-- Makes the steps of a run under a notifier, which is removed in the end whatever happens. -/
def underNotifier (n : Notifier) : Result :=
  let t := r.steps
  match t.outcome with
  | .error e => ⟨.error e, t.visits, (t.final.onSession Session.abandon).onHost n.remove⟩
  | .ok () =>
    let (outcome, final) := (t.final.onHost n.remove).conclude
    ⟨outcome, t.visits, final⟩

/-- Executes a run from beginning to end. -/
def execute : Result :=
  match Notifier.install r.session.host with
  | (.error e, h) => ⟨.error (.notifier e), [], r.onHost fun _ => h⟩
  | (.ok n, h) => (r.onHost fun _ => h).underNotifier n

end Run

/-- Runs the commands of a stream as configured, if the limits leave room for a job. -/
def Config.run (c : Config) (host : Host) (stream : Bytes) : Except Failure Run.Result :=
  match c.limits with
  | .error e => .error e
  | .ok limits => .ok (Run.prepare c limits host stream).execute

end OrderedJobs
