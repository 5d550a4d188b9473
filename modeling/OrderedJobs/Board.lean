import OrderedJobs.Failure
import OrderedJobs.Line
import OrderedJobs.Status

/-! # The job board

The book-keeping of a run.  A job sits in the ring slot `index % capacity` from its launch until it
is retired, and it is retired once it has both been reaped (its child's status collected) and
drained (its output copied to the end).  These two come in either order.  The cursor `current` is
the index of the job whose output is being copied, `next` the index of the job to launch next.

Jobs are known by their position in `jobs`, so two jobs of one index stay two jobs.  Launching is
admitted while fewer than the limit run, the cursors are less than the capacity apart, and the slot
of the next job is free (`canLaunch`). -/

namespace OrderedJobs

/-- How far a job has come. -/
inductive Stage where
  | created
  | launched
  | draining
  | retired
deriving DecidableEq, Repr

def Stage.rank : Stage → Nat
  | created => 0
  | launched => 1
  | draining => 2
  | retired => 3

structure Job where
  index : Int
  command : Command
  stage : Stage := .created
  pid : Option Int := none
  /-- The child whose pipe we hold the read end of. -/
  output : Option Nat := none
  reaped : Bool := false
  drained : Bool := false

/-- How many jobs may run at once, and how many may await their turn to be drained. -/
structure Limits where
  concurrency : Nat
  capacity : Nat
  concurrency_pos : 1 ≤ concurrency
  concurrency_le : concurrency ≤ capacity

/-- There is a slot. -/
theorem Limits.capacity_pos (l : Limits) : 0 < l.capacity :=
  Nat.lt_of_lt_of_le l.concurrency_pos l.concurrency_le

/-- Limits from numbers, if these leave room for a job. -/
def Limits.ofInts (limit capacity : Int) : Except Failure Limits :=
  if h : limit < 1 ∨ capacity < limit then .error (.invalidLimits limit capacity)
  else .ok ⟨limit.toNat, capacity.toNat, by omega, by omega⟩

/-- What a run should do next. -/
inductive Phase where
  | filling
  | waiting
  | done
deriving DecidableEq, Repr

structure Board where
  limits : Limits
  /-- Every job there has been, in the order of creation. -/
  jobs : List Job := []
  /-- The slots, each with the position of its occupant in `jobs`. -/
  ring : List (Option Nat)
  /-- The running children by process number, in the order of their registration. -/
  running : List (Int × Nat) := []
  current : Int := 0
  next : Int := 0
  started : Int := 0
  finished : Int := 0
  exitCode : Int := 0
  /-- There is no more input. -/
  exhausted : Bool := false

/-- A board with nothing on it. -/
def Board.empty (limits : Limits) : Board :=
  { limits, ring := List.replicate limits.capacity none }

namespace Board

variable (b : Board)

/-- The slot of an index: its residue modulo the capacity. -/
def slot (index : Int) : Nat := (index % (b.limits.capacity : Int)).toNat

theorem slot_lt (index : Int) : b.slot index < b.limits.capacity := by
  have hcap := b.limits.capacity_pos
  have := Int.emod_nonneg index (b := b.limits.capacity) (by omega)
  have := Int.emod_lt_of_pos index (b := b.limits.capacity) (by omega)
  unfold slot
  omega

/-- The occupant of the slot of an index. -/
def occupant (index : Int) : Option Nat := (b.ring[b.slot index]?).join

/-- The job being drained, if any was launched. -/
def active : Option Nat := if b.current = b.next then none else b.occupant b.current

def canLaunch : Bool :=
  decide (b.running.length < b.limits.concurrency) &&
  decide (b.next - b.current < b.limits.capacity) &&
  (b.occupant b.next).isNone

def isDone : Bool := b.exhausted && b.running.isEmpty && decide (b.current = b.next)

def phase : Phase :=
  if b.isDone then .done
  else if !b.exhausted && b.canLaunch then .filling
  else .waiting

/-- Changes one job. -/
def updateJob (j : Nat) (f : Job → Job) : Board := { b with jobs := b.jobs.modify j f }

/-- Adds a job in no slot. -/
def addJob (job : Job) : Board := { b with jobs := b.jobs ++ [job] }

/-- Fills a slot or frees it. -/
def setSlot (slot : Nat) (occupant : Option Nat) : Board :=
  { b with ring := b.ring.set slot occupant }

/-- Adds a job in the slot of its index. -/
def placeJob (job : Job) : Board :=
  (b.addJob job).setSlot (b.slot job.index) (some b.jobs.length)

/-- Registers a running child.  A process number that is known keeps its place. -/
def register (pid : Int) (j : Nat) : Board :=
  { b with running :=
      if b.running.any (·.1 == pid) then b.running.map fun r => if r.1 = pid then (pid, j) else r
      else b.running ++ [(pid, j)] }

/-- Forgets a running child. -/
def unregister (pid : Int) : Board := { b with running := b.running.filter (·.1 != pid) }

/-- Puts a launched job on the board and counts it. -/
def enroll (job : Job) (pid : Int) : Board :=
  let b' := (b.placeJob job).register pid b.jobs.length
  { b' with started := b.started + 1, next := b.next + 1 }

/-- Frees the slot of a job that has been reaped and drained. -/
def retire (j : Nat) : Except Failure Board :=
  match b.jobs[j]? with
  | none => .ok b
  | some job =>
    if !(job.reaped && job.drained) then .error (.notRetirable job.index job.reaped job.drained)
    else if b.occupant job.index ≠ some j then
      .error (.notOccupant job.index (b.slot job.index))
    else .ok ((b.setSlot (b.slot job.index) none).updateJob j fun job =>
      { job with stage := .retired })

/-- Accounts for the end of a child with the given status. -/
def recordExit (pid : Int) (j : Nat) (status : WaitStatus) : Board :=
  { b.unregister pid with
    finished := b.finished + 1
    exitCode := WaitStatus.fold b.exitCode status
    jobs := b.jobs.modify j fun job => { job with reaped := true } }

/-- Accounts for the end of a job's output. -/
def recordDrained (j : Nat) : Board :=
  { b.updateJob j fun job => { job with output := none, drained := true } with
    current := b.current + 1 }

/-- Lets go of the output of every occupant and empties the ring. -/
def clearRing : Board :=
  { b with
    jobs := (b.ring.filterMap id).foldl (fun jobs j => jobs.modify j fun job =>
      { job with output := none }) b.jobs
    ring := List.replicate b.ring.length none }

/-- The children whose output the occupants of the ring still hold, slot by slot. -/
def openOutputs : List Nat :=
  b.ring.filterMap fun occupant => occupant.bind fun j => (b.jobs[j]?).bind Job.output

end Board

end OrderedJobs
