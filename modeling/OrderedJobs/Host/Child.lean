import OrderedJobs.Line
import OrderedJobs.Host.Platform

/-! # The child side of a launch

Between its creation and its command, a child makes a fixed sequence of calls (`Call.plan`): it
restores the default reaction to broken pipes, asks for a signal should its parent die, puts the
null device in place of its input and its own pipe in place of its two outputs, writes the echo of
the command, and executes it.  The sequence is cut at the first call that fails; the child then
reports the failure on its error output and exits with 1 (`Call.trace`).

Where the bytes of a write go depends on the redirections made before it: `Call.piped` collects
those that reach the child's pipe, `Call.stray` those that reach the error output it shares with
its parent. -/

namespace OrderedJobs

/-- A call of a child on its way to its command. -/
inductive Call where
  | defaultSignal (signal : Nat)
  | deathSignal (signal : Nat)
  | openNull
  | duplicate (source target : Nat)
  | write (descriptor : Nat) (data : Bytes)
  | exec (file : Bytes) (command : Command)
  | exit (code : Nat)
deriving DecidableEq, Repr

namespace Call

/-- The number under which a child opens the null device. -/
def nullDescriptor : Nat := 3

/-- The calls of a child whose pipe ends at the descriptor `writeEnd`.  An empty echo is not
written, and a command without words has nothing to execute. -/
def plan (deathSignals : Bool) (writeEnd : Nat) (command : Command) (echo : Option Bytes) :
    List Call :=
  [.defaultSignal Signal.brokenPipe] ++
  (if deathSignals then [.deathSignal Signal.terminate] else []) ++
  [.openNull, .duplicate nullDescriptor 0, .duplicate writeEnd 1, .duplicate writeEnd 2] ++
  (match echo with
    | none | some [] => []
    | some data => [.write 1 data]) ++
  (match command with
    | [] => []
    | file :: _ => [.exec file command])

/-- Makes calls up to the first that fails, which is made too: the calls made, and how the last of
them failed. -/
def attempt (fails : Call → Option String) : List Call → List Call × Option String
  | [] => ([], none)
  | c :: rest =>
    match fails c with
    | some text => ([c], some text)
    | none => (c :: (attempt fails rest).1, (attempt fails rest).2)

/-- How the `i`-th child's call fails on a platform, if it does. -/
def failure (p : Platform) (i : Nat) : Call → Option String
  | deathSignal _ => p.faults.childDeathSignal.map fun (n : Nat) =>
      (Failure.system .deathSignal (.ofNumber n)).message
  | openNull => p.faults.nullDevice.map OsError.message
  | exec .. => (p.execFailures.lookup i).map ExecFailure.message
  | _ => none

/-- Why the `i`-th child never gets to its command, if so: a call failed, or there is none. -/
def obstacle (p : Platform) (i writeEnd : Nat) (command : Command) (echo : Option Bytes) :
    Option String :=
  (attempt (failure p i) (plan p.deathSignals writeEnd command echo)).2.or
    (if command.isEmpty then some "list index out of range" else none)

/-- What a child writes about its failure. -/
def diagnostic (text : String) : Bytes := Bytes.ofString ("execvp failed: " ++ text ++ "\n")

/-- All the calls of the `i`-th child up to its command or its exit. -/
def trace (p : Platform) (i writeEnd : Nat) (command : Command) (echo : Option Bytes) :
    List Call :=
  (attempt (failure p i) (plan p.deathSignals writeEnd command echo)).1 ++
  match obstacle p i writeEnd command echo with
  | none => []
  | some text => [.write 2 (diagnostic text), .exit 1]

/-- The bytes that calls write to descriptors that lead into the pipe, where `redirected` lists
those that do before the first call. -/
def piped (writeEnd : Nat) (redirected : List Nat) : List Call → Bytes
  | [] => []
  | duplicate source target :: rest =>
      piped writeEnd (if source = writeEnd then target :: redirected else redirected) rest
  | write descriptor data :: rest =>
      (if descriptor ∈ redirected then data else []) ++ piped writeEnd redirected rest
  | _ :: rest => piped writeEnd redirected rest

/-- The bytes that calls write to the inherited error output. -/
def stray (writeEnd : Nat) (redirected : List Nat) : List Call → Bytes
  | [] => []
  | duplicate source target :: rest =>
      stray writeEnd (if source = writeEnd then target :: redirected else redirected) rest
  | write descriptor data :: rest =>
      (if descriptor = 2 ∧ 2 ∉ redirected then data else []) ++ stray writeEnd redirected rest
  | _ :: rest => stray writeEnd redirected rest

end Call

end OrderedJobs
