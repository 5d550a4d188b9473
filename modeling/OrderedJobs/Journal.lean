import OrderedJobs.Failure
import OrderedJobs.Status

/-! # The journal

What a run tells on its error output: records of its own, each with a level and the part of the
program that speaks, and the bytes that children write there before their output is redirected.
All records are kept, whatever their level; the level asked for decides only what is shown
(`Journal.render`), so a run does not depend on it. -/

namespace OrderedJobs

/-- The levels of records, from the least to the most severe. -/
inductive Level where
  | debug
  | info
  | warning
  | error
  | critical
deriving DecidableEq, Repr

def Level.severity : Level → Nat
  | debug => 10
  | info => 20
  | warning => 30
  | error => 40
  | critical => 50

def Level.name : Level → String
  | debug => "DEBUG"
  | info => "INFO"
  | warning => "WARNING"
  | error => "ERROR"
  | critical => "CRITICAL"

/-- Something told on the error output. -/
inductive Record where
  /-- The start of a run, with its configuration as text. -/
  | starting (config : String)
  | launched (job pid descriptor : Int)
  | reaped (job pid : Int) (status : WaitStatus) (exitCode : Int)
  | drained (job : Int)
  | exhausted
  | aborting
  | alreadyCollected (pid : Int)
  | concluded (finished started exitCode : Int)
  /-- A command line that asks for something impossible. -/
  | refused (text : String)
  /-- A run that ended early. -/
  | failed (failure : Failure)
  /-- Bytes of a child. -/
  | stray (bytes : Bytes)
deriving DecidableEq, Repr

/-- The records so far, in order. -/
abbrev Journal := List Record

namespace Record

/-- The level of a record; the bytes of a child have none. -/
def level? : Record → Option Level
  | starting _ | launched .. | reaped .. | drained _ | exhausted | aborting | concluded .. =>
      some .debug
  | alreadyCollected _ => some .warning
  | refused _ | failed _ => some .error
  | stray _ => none

/-- The part of the program that speaks. -/
def speaker : Record → String
  | starting _ | aborting | concluded .. => "pararun.runner"
  | launched .. => "pararun.launcher"
  | reaped .. | alreadyCollected _ => "pararun.reaper"
  | drained _ => "pararun.sequencer"
  | exhausted => "pararun.source"
  | refused _ | failed _ | stray _ => "pararun"

def message : Record → String
  | starting config => s!"starting with self.config={config}"
  | launched job pid descriptor =>
      s!"launched job {job} as pid={pid} reading readfd={descriptor}"
  | reaped job pid status exitCode =>
      s!"reaped job {job} (pid={pid}, status={status}), aggregate exit code {exitCode}"
  | drained job => s!"drained job {job}"
  | exhausted => "input exhausted"
  | aborting => "aborting, about to kill running jobs"
  | alreadyCollected pid => s!"child pid={pid} already collected"
  | concluded finished started exitCode =>
      s!"finished {finished}/{started} with exit code {exitCode}"
  | refused text => text
  | failed failure => "pararun failed: " ++ failure.message
  | stray bytes => Utf8.decodeLenient bytes

/-- A record as it is shown: with a time stamp, its level and its speaker; the bytes of a child as
they are. -/
def render (stamp : String) (r : Record) : String :=
  match r.level? with
  | none => r.message
  | some level => stamp ++ " " ++ level.name ++ " " ++ r.speaker ++ " " ++ r.message ++ "\n"

/-- A record is shown from its level on; the bytes of a child always are. -/
def shown (least : Level) (r : Record) : Bool :=
  r.level?.all fun level => decide (least.severity ≤ level.severity)

end Record

/-- The error output of a run at a level. -/
def Journal.render (stamp : String) (least : Level) (j : Journal) : String :=
  String.join ((j.filter (Record.shown least)).map (Record.render stamp))

/-- The bytes of children in a journal. -/
def Journal.stray (j : Journal) : Bytes :=
  j.flatMap fun
    | .stray bytes => bytes
    | _ => []

end OrderedJobs
