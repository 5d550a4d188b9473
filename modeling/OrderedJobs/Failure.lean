import OrderedJobs.Bytes
import OrderedJobs.Text.Utf8

/-! # Failures

Everything that can end a run early, as one inductive type by cause: a line that is no command, a
call of the operating system that failed, and the refusals of the book-keeping.  The wording is in
`Failure.message` and nowhere else. -/

namespace OrderedJobs

/-- An error of the operating system: its number and its text. -/
structure OsError where
  number : Int
  text : String
deriving DecidableEq, Repr

/-- The usual rendering of a numbered error. -/
def OsError.message (e : OsError) : String := s!"[Errno {e.number}] {e.text}"

/-- What is wrong with an input line. -/
inductive LineFault where
  | tooLong
  | missingNewline
  | tooManyArguments
deriving DecidableEq, Repr

def LineFault.reason : LineFault → String
  | tooLong => "input error. too long input line?"
  | missingNewline => "input error. missing newline?"
  | tooManyArguments => "too many arguments for a command"

/-- A call on which a whole run depends. -/
inductive Operation where
  | pipe
  | fork
  | read (job : Int)
  | write
  | wait (pid : Int)
  | deathSignal
deriving DecidableEq, Repr

/-- What the call was made for, in front of the error's own text. -/
def Operation.preamble : Operation → String
  | pipe => "could not create pipe: "
  | fork => "could not fork: "
  | read job => s!"could not read output of job {job}: "
  | write => "could not write output: "
  | wait pid => s!"waitpid failed for pid={pid}: "
  | deathSignal => "prctl(PR_SET_PDEATHSIG) failed: "

inductive Failure where
  /-- An input line that is no command. -/
  | badLine (fault : LineFault) (line : Bytes)
  /-- A call on which the run depends. -/
  | system (operation : Operation) (error : OsError)
  /-- The pipe on which child exits are announced could not be made: the error as it came. -/
  | notifier (error : OsError)
  /-- Limits that leave no room for a job. -/
  | invalidLimits (limit capacity : Int)
  /-- Only the job at the cursor may be drained, and only while its pipe is open. -/
  | notActive (job current : Int)
  /-- Only a job both reaped and drained may leave the ring. -/
  | notRetirable (job : Int) (reaped drained : Bool)
  /-- Only the occupant of a slot may free it. -/
  | notOccupant (job : Int) (slot : Nat)
  /-- A wait with nothing left that could end it. -/
  | stalled
deriving DecidableEq, Repr

/-- Truth values as the messages spell them. -/
def flagText (b : Bool) : String := if b then "True" else "False"

def Failure.message : Failure → String
  | badLine fault line => fault.reason ++ "\nbad line: " ++ Utf8.decodeLenient line
  | system operation e => (OsError.mk e.number (operation.preamble ++ e.text)).message
  | notifier e => e.message
  | invalidLimits limit capacity =>
      s!"invalid limits: self.limit={limit}, self.capacity={capacity}"
  | notActive job current => s!"job {job} is not the active one, state.current={current}"
  | notRetirable job reaped drained =>
      s!"job {job} cannot be retired: job.reaped={flagText reaped}, job.drained={flagText drained}"
  | notOccupant job slot => s!"job {job} does not occupy slot {slot}"
  | stalled => "nothing left to wait for"

end OrderedJobs
