import OrderedJobs.Session.Drain
import OrderedJobs.Session.Reap

/-! # Waiting for something to do

A session waits for exit notices and for the output of the job at the cursor.  Notices are handled
before output. -/

namespace OrderedJobs.Session

/-- The child whose output is awaited. -/
def awaited (s : Session) : Option Nat :=
  s.board.active.bind fun j => (s.board.jobs[j]?).bind Job.output

/-- Handles what a wait found ready; `active` is the job that was active when the wait began. -/
def handle (s : Session) (active : Option Nat) (ready : Readiness) :
    Except Failure Unit × Session :=
  match if ready.notices then s.handleNotices else (.ok (), s) with
  | (.error e, s) => (.error e, s)
  | (.ok (), s) =>
    match active with
    | some j => if ready.output then s.drain j else (.ok (), s)
    | none => (.ok (), s)

/-- Waits until something is ready, and handles it. -/
def wait (s : Session) : Except Failure Unit × Session :=
  let (ready, h) := s.host.poll s.awaited
  if ready.any then handle { s with host := h } s.board.active ready
  else (.error .stalled, { s with host := h })

end OrderedJobs.Session
