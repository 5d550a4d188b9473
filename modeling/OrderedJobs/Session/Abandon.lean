import OrderedJobs.Session.Drain

/-! # Abandoning a run

When a run cannot go on, every pipe still held is closed unread, and every running child is asked
to end and then collected.  Their statuses do not count. -/

namespace OrderedJobs.Session

/-- Closes the output of every job in the ring, and empties the ring. -/
def dropOutputs (s : Session) : Session :=
  { s with
    host := s.board.openOutputs.foldl Host.closeOutput s.host
    board := s.board.clearRing }

/-- Collects a child that was asked to end. -/
def collectKilled (s : Session) (pid : Int) : Session :=
  let s := match s.host.collect pid with
    | (.error _, h) => { s with host := h }.say (.alreadyCollected pid)
    | (.ok _, h) => { s with host := h }
  { s with board := s.board.unregister pid }

/-- Asks every running child to end, and collects them. -/
def killAll (s : Session) : Session :=
  let pids := s.board.running.map (·.1)
  pids.foldl collectKilled
    { s with host := pids.foldl (fun h pid => h.kill pid Signal.terminate) s.host }

/-- Gives up on everything that is still under way. -/
def abandon (s : Session) : Session := (s.say .aborting).dropOutputs.killAll

end OrderedJobs.Session
