import OrderedJobs.Board
import OrderedJobs.Display
import OrderedJobs.Host.Poll
import OrderedJobs.Journal

/-! # Sessions

A session is a job board on a host, with the presentation of the output and the journal.  The
operations on a session are functions to a result and a session: when one fails, the session says
what had been changed and written by then, and nothing is taken back. -/

namespace OrderedJobs

structure Session where
  host : Host
  board : Board
  display : Display
  journal : Journal := []

namespace Session

variable (s : Session)

/-- Adds a record to the journal. -/
def say (r : Record) : Session := { s with journal := s.journal ++ [r] }

/-- Writes segments to the output. -/
def present (segments : List Segment) : Except Failure Unit × Session :=
  match s.host.writeAll (segments.flatMap Segment.bytes) with
  | (.error e, h) => (.error (.system .write e), { s with host := h })
  | (.ok (), h) => (.ok (), { s with host := h })

/-- Retires a job that satisfies a condition. -/
def retireIf (condition : Job → Bool) (j : Nat) : Except Failure Unit × Session :=
  if (s.board.jobs[j]?).any condition then
    match s.board.retire j with
    | .error e => (.error e, s)
    | .ok b => (.ok (), { s with board := b })
  else (.ok (), s)

end Session

end OrderedJobs
