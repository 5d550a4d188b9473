/-! # Wait statuses

The word a finished child leaves behind, and the aggregate exit code that a run folds out of them.
A status whose low seven bits are clear is a regular exit with its code in bits 8 to 15; any other
status is a death by signal and counts as code 1.  The aggregate is the maximum, so the order in
which statuses arrive does not show in it (`fold_right_comm`). -/

namespace OrderedJobs

/-- A wait status: a signed word. -/
abbrev WaitStatus := Int

namespace WaitStatus

/-- The child ended by exiting, not by a signal. -/
def exited (s : WaitStatus) : Bool := s % 128 == 0

/-- The code of a regular exit: bits 8 to 15. -/
def exitCode (s : WaitStatus) : Int := s / 256 % 256

/-- What a status contributes to the aggregate exit code. -/
def severity (s : WaitStatus) : Int := if s.exited then s.exitCode else 1

/-- The status of a child that exits with `code`. -/
def ofExit (code : Int) : WaitStatus := code * 256

/-- The aggregate exit code after one more status. -/
def fold (code : Int) (s : WaitStatus) : Int := max code s.severity

/-- The aggregates after each status of a list. -/
def foldAll (code : Int) : List WaitStatus → List Int
  | [] => []
  | s :: rest => fold code s :: foldAll (fold code s) rest

theorem exitCode_nonneg (s : WaitStatus) : 0 ≤ s.exitCode := by
  unfold exitCode; omega

theorem exitCode_le (s : WaitStatus) : s.exitCode ≤ 255 := by
  unfold exitCode; omega

theorem severity_nonneg (s : WaitStatus) : 0 ≤ s.severity := by
  unfold severity; split
  · exact s.exitCode_nonneg
  · decide

theorem severity_le (s : WaitStatus) : s.severity ≤ 255 := by
  unfold severity; split
  · exact s.exitCode_le
  · decide

theorem getElem?_foldAll (code : Int) (l : List WaitStatus) (i : Nat) :
    (foldAll code l)[i]? = (l[i]?).map fun _ => (l.take (i + 1)).foldl fold code := by
  induction l generalizing code i with
  | nil => rfl
  | cons s l ih =>
      cases i with
      | zero => rfl
      | succ i => exact ih (fold code s) i

theorem fold_right_comm (code : Int) (s t : WaitStatus) :
    fold (fold code s) t = fold (fold code t) s := by
  unfold fold; omega

end WaitStatus

end OrderedJobs
