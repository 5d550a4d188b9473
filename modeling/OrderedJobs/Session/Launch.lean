import OrderedJobs.Session.Basic

/-! # Launching

A launch makes a pipe and a child that writes into it, and keeps the read end only.  If the pipe or
the child cannot be made, the launch fails and no descriptor stays behind.  A child that cannot
execute its command is not a failed launch: it has reported so into its own pipe and has ended. -/

namespace OrderedJobs

/-- A job whose child is `child`. -/
def Job.runBy (job : Job) (child : Nat) : Job :=
  { job with stage := .launched, pid := some (Host.pidOf child), output := some child }

/-- Gives a job a pipe and a child. -/
def Host.spawn (h : Host) (job : Job) (echo : Option Bytes) : Except Failure Job × Host :=
  match h.makePipe with
  | (.error e, h) => (.error (.system .pipe e), h)
  | (.ok p, h) =>
    match h.fork p job.command echo with
    | (.error e, h) =>
      (.error (.system .fork e), (h.close (.readEnd p)).close (.writeEnd p))
    | (.ok child, h) => (.ok (job.runBy child), h.close (.writeEnd p))

namespace Session

/-- The records of a launch: what the new child wrote on our error output, and the launch. -/
def launchRecords (h : Host) (job : Job) (child pipe : Nat) : Journal :=
  let stray := (h.children[child]?).elim [] Child.stray
  (if stray.isEmpty then [] else [.stray stray]) ++
    [.launched job.index (Host.pidOf child) (Descriptor.readEnd pipe).number]

/-- Launches the next job. -/
def launch (s : Session) (command : Command) (echo : Option Bytes) :
    Except Failure Unit × Session :=
  match s.host.spawn { index := s.board.next, command } echo with
  | (.error e, h) => (.error e, { s with host := h })
  | (.ok job, h) =>
    let child := s.host.children.length
    (.ok (), { s with
      host := h
      board := s.board.enroll job (Host.pidOf child)
      journal := s.journal ++ launchRecords h job child s.host.pipes })

end Session

end OrderedJobs
