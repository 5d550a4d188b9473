import OrderedJobs.Line

/-! # Presentation

What reaches the output is made of segments: the bytes of jobs, and, in progress mode, three
controls around them.  A note shows how many jobs are done, an erasure removes the last line again,
and a filler is the terminator that a job's last line lacked.  Notes and erasures are given out
only where the output stands at the beginning of a line. -/

namespace OrderedJobs

/-- A part of the output. -/
inductive Segment where
  | job (data : Bytes)
  | erase
  | note (finished started : Int)
  | filler
deriving DecidableEq, Repr

def Segment.bytes : Segment → Bytes
  | job data => data
  | erase => [0x0d, 0x1b, 0x5b, 0x4b]
  | note finished started =>
      Command.yellow ++ Bytes.ofString s!"{finished}/{started} done" ++ Command.reset
  | filler => [Bytes.newline]

/-- Whether there are notes, and whether the job bytes stand in the middle of a line. -/
structure Display where
  progress : Bool
  midLine : Bool := false
deriving DecidableEq, Repr

namespace Display

variable (d : Display)

/-- A note by itself: on the reaping of a job. -/
def onReaped (finished started : Int) : List Segment :=
  if d.progress && !d.midLine then [.erase, .note finished started] else []

/-- A chunk of job bytes, and the display after it. -/
def onData (data : Bytes) (finished started : Int) : List Segment × Display :=
  if !d.progress then ([.job data], d)
  else
    ((if d.midLine then [] else [.erase]) ++ [.job data] ++
      (if data.endsLine then [.note finished started] else []),
     { d with midLine := !data.endsLine })

/-- The end of a job's output, and the display after it. -/
def onEnd : List Segment × Display :=
  if !d.progress then ([], d)
  else if d.midLine then ([.filler], { d with midLine := false })
  else ([.erase], d)

/-- The end of the run. -/
def onFinish : List Segment := if d.progress && !d.midLine then [.erase] else []

end Display

end OrderedJobs
