import OrderedJobs.Text.Blank

/-! # Written integers

`Numeral.read` reads a written integer in two stages.  `Numeral.tidy` removes what does not count:
blanks around the numeral, a plus sign, leading zeros, a fraction of zeros, and single underscores
between digits.  `Numeral.plain` reads what is left, a minus sign and digits that do not start with
a zero.  An integer has at most `Numeral.maxDigits` digits; a text that starts out as a longer one
is refused as such before anything is removed. -/

namespace OrderedJobs.Numeral

/-- Why a text is no numeral. -/
inductive Fault where
  /-- It spells no integer. -/
  | unreadable
  /-- It has too many digits. -/
  | oversized
deriving DecidableEq, Repr

/-- The most digits that an integer is read or shown with. -/
def maxDigits : Nat := 4300

/-- Drops zeros, and underscores after the first one, up to a sign or another digit.  The last of
them, `last`, stays before a point and at the end. -/
def dropZerosAfter (last : Char) : List Char → Option (List Char)
  | [] => some [last]
  | c :: rest =>
    if c = '0' ∨ c = '_' then dropZerosAfter c rest
    else if c = '.' then some (last :: c :: rest)
    else if c = '-' ∨ c.isDigit then some (c :: rest)
    else none

/-- Drops leading zeros.  Nothing but a digit or a minus sign may come first. -/
def dropZeros : List Char → Option (List Char)
  | [] => none
  | c :: rest =>
    if c = '0' then dropZerosAfter c rest
    else if c = '-' ∨ c.isDigit then some (c :: rest)
    else none

/-- Drops a fraction of zeros. -/
def dropFraction (cs : List Char) : List Char :=
  match cs.span (· != '.') with
  | (whole, _ :: fraction) =>
    if !fraction.isEmpty && fraction.all (· == '0') then whole else cs
  | (_, []) => cs

/-- The underscores are single, and stand neither first nor last. -/
def separates (cs : List Char) : Bool :=
  cs.head? != some '_' && cs.getLast? != some '_' && !(cs.zip cs.tail).contains ('_', '_')

/-- Drops underscores that separate. -/
def dropUnderscores (cs : List Char) : List Char :=
  if separates cs then cs.filter (· != '_') else cs

/-- A numeral without what does not count in it. -/
def tidy (cs : List Char) : Option (List Char) :=
  match Blank.trim cs with
  | '+' :: '-' :: _ => none
  | '+' :: rest => unsigned rest
  | '-' :: rest => (unsigned rest).map ('-' :: ·)
  | rest => unsigned rest
where
  unsigned (cs : List Char) : Option (List Char) :=
    (dropZeros cs).map fun cs => dropUnderscores (dropFraction cs)

/-- The number that digits spell, after `n`. -/
def ofDigits (n : Nat) (cs : List Char) : Nat := cs.foldl (fun n c => n * 10 + (c.toNat - 48)) n

/-- Reads digits of which the first is no zero, or one zero. -/
def digits (cs : List Char) : Option Nat :=
  if cs = ['0'] then some 0
  else if cs.isEmpty || cs.head? == some '0' || !cs.all Char.isDigit then none
  else if maxDigits < cs.length then none
  else some (ofDigits 0 cs)

/-- Reads a minus sign and digits. -/
def plain : List Char → Option Int
  | '-' :: rest => (digits rest).map fun n => -(n : Int)
  | cs => (digits cs).map Int.ofNat

/-- A text that starts, after a minus sign perhaps, with more digits than an integer has, the first
of which is no zero. -/
def isOversized (cs : List Char) : Bool :=
  let rest := match cs with
    | '-' :: rest => rest
    | cs => cs
  rest.head? != some '0' && decide (maxDigits < (rest.takeWhile Char.isDigit).length)

/-- Reads a written integer. -/
def read (s : String) : Except Fault Int :=
  if isOversized s.toList then .error .oversized
  else
    match (tidy s.toList).bind plain with
    | none => .error .unreadable
    | some n => .ok n

end OrderedJobs.Numeral
