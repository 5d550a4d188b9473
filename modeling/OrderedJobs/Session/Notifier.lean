import OrderedJobs.Session.Basic

/-! # The notifier

The ends of children are announced on a wakeup pipe for the length of a run.  Installing the
notifier makes the pipe, sets the handler of the child signal and the wakeup descriptor; removing
it puts back what it found and closes the pipe. -/

namespace OrderedJobs

structure Notifier where
  pipe : Nat
  previousHandler : Handler
  previousWakeup : Option Descriptor
deriving DecidableEq, Repr

namespace Notifier

/-- The calls that turn the ends of children into notices on a pipe. -/
def installCalls (pipe : Nat) : List SignalCall :=
  [.setBlocking (.readEnd pipe) false, .setBlocking (.writeEnd pipe) false,
    .handle Signal.child .notices, .setWakeup (some (.writeEnd pipe)) false]

/-- Installs a notifier, unless its pipe cannot be made. -/
def install (h : Host) : Except OsError Notifier × Host :=
  match h.makePipe with
  | (.error e, h) => (.error e, h)
  | (.ok p, h) =>
    (.ok ⟨p, h.handler, h.wakeup⟩, { h with
      handler := .notices
      wakeup := some (.writeEnd p)
      signalCalls := h.signalCalls ++ installCalls p })

/-- The handler to put back: one that was set out of sight cannot be. -/
def handlerAfter (n : Notifier) : Handler :=
  if n.previousHandler = .foreign then .default else n.previousHandler

/-- The calls that undo the installation. -/
def removeCalls (n : Notifier) : List SignalCall :=
  [.setWakeup n.previousWakeup true, .handle Signal.child n.handlerAfter]

/-- Removes a notifier. -/
def remove (n : Notifier) (h : Host) : Host :=
  let h := { h with
    wakeup := n.previousWakeup
    handler := n.handlerAfter
    signalCalls := h.signalCalls ++ n.removeCalls }
  (h.close (.readEnd n.pipe)).close (.writeEnd n.pipe)

end Notifier

end OrderedJobs
