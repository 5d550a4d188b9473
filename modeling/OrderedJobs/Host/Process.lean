import OrderedJobs.Host.Basic

/-! # Processes

Creating children, collecting their statuses and sending them signals, and the events that happen
to them.  A child that ends is announced by a notice; its status is handed out once. -/

namespace OrderedJobs.Host

variable (h : Host)

/-- Announces the end of children. -/
def notify (n : Nat) : Host := if h.wakeup.isSome then { h with notices := h.notices + n } else h

/-- Ends a child that has not ended; `held` tells whether its pipe stays open for writing. -/
def finishChild (i : Nat) (status : WaitStatus) (held : Bool) : Host :=
  match h.children[i]? with
  | some c =>
    if c.status.isNone then
      (h.updateChild i fun c => { c with status := some status, held := c.held && held }).notify 1
    else h
  | none => h

/-- An event about a child that exists. -/
def occur : Event → Host
  | .data i bytes => h.updateChild i fun c =>
      if c.held && c.status.isNone then { c with waiting := c.waiting ++ bytes } else c
  | .close i => h.updateChild i fun c => { c with held := false }
  | .finish i status held => h.finishChild i status held
  | .wake n => h.notify n

/-- An event: it occurs at once, or is kept for a child that does not exist yet. -/
def receive (e : Event) : Host :=
  if e.child?.all (· < h.children.length) then h.occur e
  else { h with deferred := h.deferred ++ [e] }

/-- The child that a successful creation adds. -/
def newChild (pipe : Nat) (command : Command) (echo : Option Bytes) : Child :=
  let i := h.children.length
  let writeEnd := (Descriptor.writeEnd pipe).number
  let calls := Call.trace h.platform i writeEnd command echo
  let failed := (Call.obstacle h.platform i writeEnd command echo).isSome
  { pipe, command, calls
    waiting := Call.piped writeEnd [] calls
    held := !failed
    status := if failed then some (.ofExit 1) else none }

/-- Creates a child that writes into a pipe.  It runs up to its command before the parent goes on,
and then the events kept for it occur. -/
def fork (pipe : Nat) (command : Command) (echo : Option Bytes) : Except OsError Nat × Host :=
  let i := h.children.length
  let h' := { h with forkCalls := h.forkCalls + 1 }
  match h.platform.faults.fork.error? h.forkCalls with
  | some e => (.error e, h')
  | none =>
    let c := h.newChild pipe command echo
    let h' := { h' with children := h.children ++ [c] }
    let h' := if c.status.isSome then h'.notify 1 else h'
    let h' := { h' with deferred := h.deferred.filter (·.child? != some i) }
    (.ok i, (h.deferred.filter (·.child? == some i)).foldl occur h')

/-- The status of a child that has ended, which is handed out once; nothing while it runs. -/
def collect (pid : Int) : Except OsError (Option WaitStatus) × Host :=
  match (h.childOf pid).bind fun i => (h.children[i]?).map (i, ·) with
  | none => (.error .noChild, h)
  | some (i, c) =>
    if c.collected ∨ i ∈ h.platform.faults.lost then (.error .noChild, h)
    else
      match c.status with
      | none => (.ok none, h)
      | some s =>
        (.ok (some s), { h.updateChild i fun c => { c with collected := true } with
          collections := h.collections ++ [i] })

/-- Sends a signal.  A running child that can be reached ends by it. -/
def kill (pid : Int) (signal : Nat) : Host :=
  let h' := { h with kills := h.kills ++ [(h.childOf pid, signal)] }
  match h.childOf pid with
  | none => h'
  | some i => if i ∈ h.platform.faults.lost then h' else h'.finishChild i signal false

end OrderedJobs.Host
