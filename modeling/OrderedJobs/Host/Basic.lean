import OrderedJobs.Host.Child
import OrderedJobs.Status

/-! # The host

The state of the operating system as a run sees it.  Its calls, in the modules beside this one, are
total functions on that state.  A call that can fail gives `Except OsError`, together with the state
after it in either case: an error never takes back what was done.

* **Pipes** are unbounded.  A child's pipe is kept with the child: the bytes that were read from it
  (`passed`), those that wait, and whether some process still holds its write end (`held`).
* **Descriptors** of the parent are pipe ends, never used again.  A call on an end that is not open
  is counted in `misused`, so that "every descriptor is closed once and not used afterwards" is
  `misused = 0`.
* **Exit notices.**  A child's end adds one byte to the wakeup pipe if one is installed.  Only
  their number matters, so it is kept as a number. -/

namespace OrderedJobs

/-- An end of the parent's `n`-th pipe. -/
inductive Descriptor where
  | readEnd (pipe : Nat)
  | writeEnd (pipe : Nat)
deriving DecidableEq, Repr

/-- Pipes are numbered from 100 on, two descriptors each. -/
def Descriptor.number : Descriptor → Nat
  | readEnd p => 100 + 2 * p
  | writeEnd p => 101 + 2 * p

structure Child where
  /-- The pipe that holds its output. -/
  pipe : Nat
  command : Command
  /-- What it did on its way to the command. -/
  calls : List Call
  passed : Bytes := []
  waiting : Bytes
  held : Bool
  status : Option WaitStatus
  collected : Bool := false

/-- All the bytes ever written into the child's pipe. -/
def Child.written (c : Child) : Bytes := c.passed ++ c.waiting

/-- What the child wrote on the error output of its parent. -/
def Child.stray (c : Child) : Bytes := Call.stray (Descriptor.writeEnd c.pipe).number [] c.calls

/-- The child has not ended, or its pipe can still be written to. -/
def Child.unsettled (c : Child) : Bool := c.held || c.status.isNone

/-- Something that happens outside the parent. -/
inductive Event where
  /-- A child writes to its pipe. -/
  | data (child : Nat) (bytes : Bytes)
  /-- Nobody holds the write end of a child's pipe any longer. -/
  | close (child : Nat)
  /-- A child ends; `held` tells whether someone else still holds its pipe. -/
  | finish (child : Nat) (status : WaitStatus) (held : Bool)
  /-- Notices out of nothing. -/
  | wake (notices : Nat)
deriving DecidableEq, Repr

/-- The child an event is about. -/
def Event.child? : Event → Option Nat
  | data i _ | close i | finish i _ _ => some i
  | wake _ => none

/-- How the signal of a child's end is handled. -/
inductive Handler where
  | default
  /-- A handler that was set outside this program's sight. -/
  | foreign
  | notices
deriving DecidableEq, Repr

/-- A call that changes how child ends are announced. -/
inductive SignalCall where
  | setBlocking (descriptor : Descriptor) (blocking : Bool)
  | handle (signal : Nat) (handler : Handler)
  | setWakeup (descriptor : Option Descriptor) (warnWhenFull : Bool)
deriving DecidableEq, Repr

structure Host where
  platform : Platform := {}
  /-- What will happen: the events of each round of waiting. -/
  rounds : List (List Event) := []
  /-- Events for children that do not exist yet. -/
  deferred : List Event := []
  children : List Child := []
  pipes : Nat := 0
  pipeCalls : Nat := 0
  forkCalls : Nat := 0
  writeCalls : Nat := 0
  /-- The pipe ends that the parent holds open. -/
  descriptors : List Descriptor := []
  /-- The number of calls on an end that was not open. -/
  misused : Nat := 0
  /-- What the output accepted, write by write, latest first. -/
  accepted : List Bytes := []
  /-- Unread bytes of the wakeup pipe. -/
  notices : Nat := 0
  wakeup : Option Descriptor := none
  handler : Handler := .default
  signalCalls : List SignalCall := []
  /-- Signals sent: the child, if there is one of that number, and the signal. -/
  kills : List (Option Nat × Nat) := []
  /-- The children whose status was handed out, in that order. -/
  collections : List Nat := []

namespace Host

variable (h : Host)

/-- The bytes that the output accepted. -/
def output : Bytes := h.accepted.reverse.flatten

/-! ### Process numbers -/

/-- The process number of a child. -/
def pidOf (child : Nat) : Int := 1000 + child

/-- The child that has a process number. -/
def childOf (pid : Int) : Option Nat :=
  if 1000 ≤ pid ∧ (pid - 1000).toNat < h.children.length then some (pid - 1000).toNat else none

/-- Changes one child. -/
def updateChild (i : Nat) (f : Child → Child) : Host :=
  { h with children := h.children.modify i f }

end Host

end OrderedJobs
