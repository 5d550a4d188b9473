import OrderedJobs.Host.Output
import OrderedJobs.Host.Pipe
import OrderedJobs.Host.Process

/-! # Waiting

The parent waits for exit notices and for the output of at most one child.  A wait lets one round
of events happen, if any is left, and then more, until something it waits for is ready.  When no
round is left, the children that have not ended, or whose pipe is still held, come to their end one
by one in the order of their creation. -/

namespace OrderedJobs

/-- What a wait found ready. -/
structure Readiness where
  notices : Bool
  output : Bool
deriving DecidableEq, Repr

def Readiness.any (r : Readiness) : Bool := r.notices || r.output

namespace Host

/-- What is ready when the parent waits for notices and for the output of `active`. -/
def readiness (active : Option Nat) (h : Host) : Readiness :=
  ⟨decide (0 < h.notices), active.any h.readable⟩

/-- Ends a child, if it has not ended, with status 0, and lets go of its pipe. -/
def settleChild (h : Host) (i : Nat) : Host :=
  (h.finishChild i 0 false).updateChild i fun c => { c with held := false }

/-- Lets rounds happen until something is ready. -/
def awaitRounds (active : Option Nat) : List (List Event) → Host → Host
  | [], h => { h with rounds := [] }
  | round :: rest, h =>
    if (h.readiness active).any then { h with rounds := round :: rest }
    else awaitRounds active rest (round.foldl receive h)

/-- Lets children come to their end until something is ready. -/
def awaitChildren (active : Option Nat) : List Nat → Host → Host
  | [], h => h
  | i :: rest, h =>
    if (h.readiness active).any then h else awaitChildren active rest (h.settleChild i)

/-- The children that are not settled, in the order of their creation. -/
def unsettledChildren (h : Host) : List Nat :=
  h.children.zipIdx.filterMap fun (c, i) => if c.unsettled then some i else none

/-- The round that begins a wait. -/
def nextRound (h : Host) : Host :=
  match h.rounds with
  | [] => h
  | round :: rest => round.foldl receive { h with rounds := rest }

/-- Uses the descriptors that a wait is for. -/
def watch (active : Option Nat) (h : Host) : Host :=
  match active with
  | none => h.useNotices
  | some i => h.useNotices.useOutput i

theorem watch_frame (active : Option Nat) (h : Host) :
    ∃ misused, h.watch active = { h with misused := misused } := by
  obtain ⟨m, hm⟩ := h.useNotices_frame
  unfold watch
  split
  · exact ⟨m, hm⟩
  · next i =>
    rw [hm]
    exact useOutput_frame _ i

/-- Waits until something is ready: what it is, and the state in which it is. -/
def poll (active : Option Nat) (h : Host) : Readiness × Host :=
  let h := (h.watch active).nextRound
  let h := awaitRounds active h.rounds h
  let h := awaitChildren active h.unsettledChildren h
  (h.readiness active, h)

end Host

end OrderedJobs
