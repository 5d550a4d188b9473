import OrderedJobs.Line

/-! # The source of commands

A source reads its stream one line at a time, and only when asked (`Source.pull`).  A line is read
up to its terminator or the longest allowed length, whichever comes first.  After the end of the
stream, and after a line that is no command, the source is closed and yields nothing more.
`Source.length_pull` is the progress of a pull: it takes bytes or closes the source. -/

namespace OrderedJobs

/-- Splits off the bytes up to the first terminator, but at most `n`. -/
def splitLine (n : Nat) (stream : Bytes) : Bytes × Bytes := go n stream []
where
  /-- `line` is what has been taken so far, latest first. -/
  go : Nat → Bytes → Bytes → Bytes × Bytes
    | 0, stream, line => (line.reverse, stream)
    | _ + 1, [], line => (line.reverse, [])
    | n + 1, b :: stream, line =>
      if b = Bytes.newline then ((b :: line).reverse, stream) else go n stream (b :: line)

theorem splitLine.go_append (n : Nat) (stream line : Bytes) :
    (go n stream line).1 ++ (go n stream line).2 = line.reverse ++ stream := by
  induction n generalizing stream line with
  | zero => rfl
  | succ n ih =>
    cases stream with
    | nil => rfl
    | cons b stream =>
      unfold go
      split
      · simp
      · rw [ih]; simp

theorem splitLine_append (n : Nat) (stream : Bytes) :
    (splitLine n stream).1 ++ (splitLine n stream).2 = stream :=
  splitLine.go_append n stream []

/-- A stream of commands: what is unread, how much was read, and whether it has ended. -/
structure Source where
  rest : Bytes
  position : Nat := 0
  closed : Bool := false

/-- What a pull yields. -/
inductive Pull where
  | command (c : Command)
  | refused (fault : LineFault) (line : Bytes)
  | exhausted

namespace Source

/-- Reads one line and makes it a command. -/
def pull (leading : Command) (s : Source) : Pull × Source :=
  if s.closed then (.exhausted, s)
  else
    match splitLine Line.maxLength s.rest with
    | ([], _) => (.exhausted, { s with closed := true })
    | (line, rest) =>
      let s := { s with rest := rest, position := s.position + line.length }
      match Line.command leading line with
      | .ok c => (.command c, s)
      | .error fault => (.refused fault line, { s with closed := true })

/-- What successive pulls yield, at most `n` of them and none after the end, each with the source
after it. -/
def pulls (leading : Command) : Nat → Source → List (Pull × Source)
  | 0, _ => []
  | n + 1, s =>
    match s.pull leading with
    | (.exhausted, s) => [(.exhausted, s)]
    | (p, s) => (p, s) :: pulls leading n s

/-- A command costs at least one byte of the stream. -/
theorem length_pull {leading : Command} {s s' : Source} {c : Command}
    (h : s.pull leading = (.command c, s')) : s'.rest.length < s.rest.length := by
  unfold pull at h
  split at h
  · cases h
  · have hs := splitLine_append Line.maxLength s.rest
    split at h
    · cases h
    · next line rest hline heq =>
      rw [heq] at hs
      dsimp only at h hs
      split at h
      · cases h
        rw [← hs, List.length_append]
        have := List.length_pos_iff.2 hline
        show rest.length < _
        omega
      · cases h

end Source

end OrderedJobs
