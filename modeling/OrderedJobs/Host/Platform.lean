import OrderedJobs.Failure
import OrderedJobs.Host.ErrorText

/-! # Platforms

What is fixed about the operating system for the length of a run: whether the output is a terminal,
whether the parent-death signal exists, and which calls fail.  Faults are positions in the sequence
of calls of one kind, or properties of a child, so a run on a platform is a function of its
inputs. -/

namespace OrderedJobs

namespace Signal

/-- Writing to a pipe that nobody reads. -/
def brokenPipe : Nat := 13

/-- A request to end. -/
def terminate : Nat := 15

/-- The end of a child. -/
def child : Nat := 17

end Signal

namespace OsError

/-- The error of a number, with its usual text. -/
def ofNumber (n : Nat) : OsError := ⟨n, SystemError.text n⟩

/-- A descriptor that is not open. -/
def badDescriptor : OsError := ofNumber 9

/-- A process that is no child, or not any more. -/
def noChild : OsError := ofNumber 10

/-- Nothing to read yet. -/
def tryAgain : OsError := ofNumber 11

end OsError

/-- How the execution of a command fails. -/
inductive ExecFailure where
  | system (error : OsError)
  | invalid (text : String)
deriving DecidableEq, Repr

def ExecFailure.message : ExecFailure → String
  | system e => e.message
  | invalid text => text

/-- A call of one kind, counted from 0, that fails. -/
abbrev FaultAt := Option (Nat × OsError)

/-- The error of call number `n`. -/
def FaultAt.error? (f : FaultAt) (n : Nat) : Option OsError :=
  match f with
  | some (k, e) => if k = n then some e else none
  | none => none

/-- The most bytes that one write accepts: a positive number. -/
abbrev WriteCap := { n : Nat // 0 < n }

structure Faults where
  pipe : FaultAt := none
  fork : FaultAt := none
  write : FaultAt := none
  writeCap : Option WriteCap := none
  /-- Every read from the pipe of this child fails. -/
  read : FaultAt := none
  /-- Children that can neither be waited for nor signalled. -/
  lost : List Nat := []
  /-- The error number of the parent's request for a death signal, and of the children's. -/
  deathSignal : Option Nat := none
  childDeathSignal : Option Nat := none
  nullDevice : Option OsError := none

structure Platform where
  terminal : Bool := false
  deathSignals : Bool := true
  faults : Faults := {}
  /-- The children, by index, whose command cannot be executed. -/
  execFailures : List (Nat × ExecFailure) := []

/-- Asks for a signal to this process should its parent die.  Where there are no death signals,
this does nothing. -/
def Platform.requestDeathSignal (p : Platform) : Except Failure Unit :=
  match p.deathSignals, p.faults.deathSignal with
  | true, some n => .error (.system .deathSignal (.ofNumber n))
  | _, _ => .ok ()

end OrderedJobs
