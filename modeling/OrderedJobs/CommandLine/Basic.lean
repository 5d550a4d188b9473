import OrderedJobs.CommandLine.Flags
import OrderedJobs.CommandLine.Level
import OrderedJobs.CommandLine.Literal
import OrderedJobs.CommandLine.Usage
import OrderedJobs.Run

/-! # The command line

An invocation is answered in one of four ways: the help text, a refusal of the arguments, a run, or
an error that nothing on the command line reports.  All but the last give an exit code. -/

namespace OrderedJobs

structure Invocation where
  arguments : List Bytes
  input : Bytes
  /-- The input is a terminal. -/
  interactive : Bool := false
  processors : Option Int := none
  /-- The word for the level of the journal, if one is given. -/
  level : Option String := none
  host : Host := {}

/-- Why an invocation gives no exit code. -/
inductive Escape where
  | unknownLevel
  /-- Reading the value of a flag broke off. -/
  | value (f : Expression.Fault)
  | failure (f : Failure)
deriving DecidableEq, Repr

def Escape.message : Escape → String
  | unknownLevel => "Unable to configure logger 'pararun'"
  | value f => f.message
  | failure f => f.message

/-- The answer to an invocation: its exit code, what it wrote, and the host after it. -/
structure Answer where
  exit : Except Escape Int
  output : Bytes
  journal : Journal
  host : Host

/-- A failure that the command line reports, rather than pass it on. -/
def Failure.isReported : Failure → Bool
  | badLine .. | system .. => true
  | _ => false

namespace Invocation

/-- The value of a setting, unless it is not given, or given as nothing. -/
def setting? (s : Setting) (flags : List Flag) : Except Expression.Fault (Option Config.Value) :=
  match Flag.valueOf s flags with
  | none => .ok none
  | some text =>
    match Literal.read text with
    | .ok .null => .ok none
    | .ok v => .ok (some v)
    | .error f => .error f

/-- The fields of the configuration that flags and leading arguments ask for.  The number of jobs is
read first, wherever it is given. -/
def fields (flags : List Flag) (leading : Command) : Except Expression.Fault Config.Fields := do
  let jobs ← setting? .jobs flags
  let ring ← setting? .ring flags
  return {
    jobs
    ring
    quiet := some (.bool (flags.contains .quiet))
    leading := some (.list (leading.map .bytes)) }

variable (i : Invocation)

/-- Writes the help text. -/
def help : Answer := ⟨.ok 0, Bytes.ofString usage, [], i.host⟩

/-- Refuses the arguments. -/
def refuse (text : String) : Answer := ⟨.ok 1, [], [.refused text], i.host⟩

/-- Reports a failure, or passes it on. -/
def reportFailure (f : Failure) (output : Bytes) (journal : Journal) (host : Host) : Answer :=
  if f.isReported then ⟨.ok 1, output, journal ++ [.failed f], host⟩
  else ⟨.error (.failure f), output, journal, host⟩

/-- Answers with a run. -/
def run (c : Config) : Answer :=
  match i.host.platform.requestDeathSignal with
  | .error f => reportFailure f [] [] i.host
  | .ok () =>
    match c.run i.host i.input with
    | .error f => reportFailure f [] [] i.host
    | .ok result =>
      let s := result.final.session
      match result.outcome with
      | .ok code => ⟨.ok code, s.host.output, s.journal, s.host⟩
      | .error f => reportFailure f s.host.output s.journal s.host

/-- Answers an invocation that asks for a configuration.  From a terminal no commands are read. -/
def runFields (f : Config.Fields) : Answer :=
  if i.interactive then i.help
  else
    match Config.ofFields i.processors f with
    | .error faults => i.refuse (Config.describe faults)
    | .ok c => i.run c

/-- Answers an invocation whose flags were split off. -/
def runFlags (flags : List Flag) (leading : Command) : Answer :=
  if flags.contains .help then i.help
  else
    match fields flags leading with
    | .error f => ⟨.error (.value f), [], [], i.host⟩
    | .ok f => i.runFields f

/-- Answers an invocation, once the level of the journal is known. -/
def answer : Answer :=
  match Level.ofRequest? i.level with
  | none => ⟨.error .unknownLevel, [], [], i.host⟩
  | some _ =>
    match Flag.split i.arguments with
    | .error flag => i.refuse (Flag.missingValue flag)
    | .ok (flags, leading) => i.runFlags flags leading

/-- What an answer shows on the error output. -/
def errorOutput (stamp : String) (a : Answer) : String :=
  a.journal.render stamp ((Level.ofRequest? i.level).getD .warning)

end Invocation

end OrderedJobs
