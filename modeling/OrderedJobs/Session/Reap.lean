import OrderedJobs.Session.Basic

/-! # Reaping

One notice may stand for any number of ended children, so a reaping first takes all notices and
then asks for every running child, in the order of their registration.  It stops at the first child
that cannot be asked for; what was accounted for before stays. -/

namespace OrderedJobs.Session

/-- Takes all notices. -/
def takeNotices (s : Session) : Session := { s with host := s.host.takeNotices }

/-- Accounts for the end of one child, and retires its job if that has been drained. -/
def accountExit (s : Session) (pid : Int) (j : Nat) (status : WaitStatus) :
    Except Failure Unit × Session :=
  let b := s.board.recordExit pid j status
  let s := { s with board := b }
  let index := (b.jobs[j]?).elim 0 Job.index
  (s.say (.reaped index pid status b.exitCode)).retireIf Job.drained j

/-- Asks for each of the given children: the jobs of those that have ended. -/
def reapEach : List (Int × Nat) → Session → Except Failure (List Nat) × Session
  | [], s => (.ok [], s)
  | (pid, j) :: rest, s =>
    match s.host.collect pid with
    | (.error e, h) => (.error (.system (.wait pid) e), { s with host := h })
    | (.ok none, h) => reapEach rest { s with host := h }
    | (.ok (some status), h) =>
      match accountExit { s with host := h } pid j status with
      | (.error e, s) => (.error e, s)
      | (.ok (), s) =>
        match reapEach rest s with
        | (.error e, s) => (.error e, s)
        | (.ok js, s) => (.ok (j :: js), s)

/-- Collects every child that has ended: their jobs, in the order of registration. -/
def reap (s : Session) : Except Failure (List Nat) × Session :=
  reapEach s.board.running s.takeNotices

/-- Shows the note that follows a reaping. -/
def noteReaped (s : Session) : Except Failure Unit × Session :=
  s.present (s.display.onReaped s.board.finished s.board.started)

/-- What notices are for: reaping, and a note if a job was reaped. -/
def handleNotices (s : Session) : Except Failure Unit × Session :=
  match s.reap with
  | (.error e, s) => (.error e, s)
  | (.ok [], s) => (.ok (), s)
  | (.ok (_ :: _), s) => s.noteReaped

end OrderedJobs.Session
