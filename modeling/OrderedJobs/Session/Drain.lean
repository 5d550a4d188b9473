import OrderedJobs.Session.Basic

/-! # Draining

The output of the job at the cursor is copied chunk by chunk.  At the end of the stream its pipe is
closed, the cursor moves on, and the job is retired if it has been reaped already.  The jobs behind
the cursor keep their output in their pipes. -/

namespace OrderedJobs.Session

/-- The most bytes copied at once. -/
def chunk : Nat := 65536

/-- Shows a chunk of job bytes. -/
def showData (s : Session) (data : Bytes) : Except Failure Unit × Session :=
  let (segments, display) := s.display.onData data s.board.finished s.board.started
  { s with display }.present segments

/-- Shows the end of a job's output. -/
def showEnd (s : Session) : Except Failure Unit × Session :=
  let (segments, display) := s.display.onEnd
  { s with display }.present segments

/-- Finishes with the output of a job. -/
def endOutput (s : Session) (j : Nat) (job : Job) (child : Nat) : Except Failure Unit × Session :=
  let s := { s with host := s.host.closeOutput child, board := s.board.recordDrained j }
  match (s.say (.drained job.index)).retireIf Job.reaped j with
  | (.error e, s) => (.error e, s)
  | (.ok (), s) => s.showEnd

/-- Copies one chunk of the output of a job, or finishes with it at the end of its stream.  There is
nothing to do for a position that holds no job. -/
def drain (s : Session) (j : Nat) : Except Failure Unit × Session :=
  match s.board.jobs[j]? with
  | none => (.ok (), s)
  | some job =>
    match job.output with
    | none => (.error (.notActive job.index s.board.current), s)
    | some child =>
      if job.index ≠ s.board.current then (.error (.notActive job.index s.board.current), s)
      else
        let s := { s with board := s.board.updateJob j fun job => { job with stage := .draining } }
        match s.host.read child chunk with
        | (.error e, h) => (.error (.system (.read job.index) e), { s with host := h })
        | (.ok [], h) => endOutput { s with host := h } j job child
        | (.ok data, h) => showData { s with host := h } data

/-- Shows the end of the run. -/
def finish (s : Session) : Except Failure Unit × Session := s.present s.display.onFinish

end OrderedJobs.Session
