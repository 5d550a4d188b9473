import OrderedJobs.Number.Decimal
import OrderedJobs.Number.Numeral
import OrderedJobs.Text.Identifier

/-! # Numbers in an expression

A number is an integer in one of four bases, a decimal, or imaginary.  Single underscores may stand
between its digits.  What follows a number must not look like more of it: of the characters of an
identifier, only some words may come at once. -/

namespace OrderedJobs.Expression

/-- A number that is written without a sign.  What an imaginary number measures does not matter. -/
inductive Number where
  | integer (n : Int)
  | real (d : Decimal)
  | imaginary
deriving DecidableEq, Repr

namespace Number

/-- The number with the opposite sign. -/
def negate : Number → Number
  | integer n => integer (-n)
  | real d => real ⟨-d.mantissa, d.exponent⟩
  | imaginary => imaginary

/-- The number is an integer beyond the greatest decimal. -/
def isTooLarge : Number → Bool
  | integer n => Decimal.rounded ⟨n, 0⟩ == .infinite
  | real _ | imaginary => false

/-! ### Digits -/

/-- The digit that a character is in a base. -/
def digit? (base : Nat) (c : Char) : Option Nat :=
  let n :=
    if c.isDigit then c.toNat - 48
    else if 'a' ≤ c ∧ c ≤ 'f' then c.toNat - 87
    else if 'A' ≤ c ∧ c ≤ 'F' then c.toNat - 55
    else base
  if n < base then some n else none

/-- A run of digits with single underscores between them: their number, their value after `n`, and
what follows.  `afterDigit` tells whether an underscore may come next. -/
def digits (base : Nat) (count n : Nat) (afterDigit : Bool) :
    List Char → Option (Nat × Nat × List Char)
  | [] => if afterDigit then some (count, n, []) else none
  | c :: rest =>
    match digit? base c with
    | some d => digits base (count + 1) (n * base + d) true rest
    | none =>
      if c = '_' then if afterDigit then digits base count n false rest else none
      else if afterDigit then some (count, n, c :: rest)
      else none

/-- The digits after a point, which may be missing: their number and their value after `n`. -/
def fraction (n : Nat) : List Char → Option (Nat × Nat × List Char)
  | [] => some (0, n, [])
  | c :: rest => if c.isDigit then digits 10 0 n false (c :: rest) else some (0, n, c :: rest)

/-! ### Parts of a number -/

/-- The words that may follow a number at once. -/
def followers : List String := ["and", "else", "for", "if", "in", "is", "not", "or"]

/-- The character may belong to an identifier, as far as can be told by itself. -/
def isWordCharacter (c : Char) : Bool := c.isAlphanum || c == '_' || decide (0x80 ≤ c.toNat)

/-- A number may end before this text. -/
def endsBefore (cs : List Char) : Bool :=
  followers.any (·.toList.isPrefixOf cs) || !cs.head?.any isWordCharacter

/-- An exponent, which may be missing.  The letter that marks it may also begin a word. -/
def exponent : List Char → Option (Int × List Char)
  | [] => some (0, [])
  | c :: rest =>
    if "else".toList.isPrefixOf (c :: rest) then some (0, c :: rest)
    else if c = 'e' ∨ c = 'E' then
      match rest with
      | '-' :: rest => (digits 10 0 0 false rest).map fun (_, n, rest) => (-(n : Int), rest)
      | '+' :: rest => (digits 10 0 0 false rest).map fun (_, n, rest) => ((n : Int), rest)
      | rest => (digits 10 0 0 false rest).map fun (_, n, rest) => ((n : Int), rest)
    else some (0, c :: rest)

/-- The number before the mark of the imaginary ones, if there is such a mark. -/
def marked (n : Number) : List Char → Number × List Char
  | [] => (n, [])
  | c :: rest => if c = 'j' ∨ c = 'J' then (imaginary, rest) else (n, c :: rest)

/-- A decimal whose digits before the point have the value `n`, from the point on. -/
def pointed (n : Nat) (cs : List Char) : Option (Number × List Char) := do
  let (count, n, rest) ← fraction n cs
  let (e, rest) ← exponent rest
  return marked (real ⟨n, e - count⟩) rest

/-- An integer of base 10.  It does not start with zeros, unless it is zero, and has no more digits
than an integer may. -/
def decimalInteger (leadingZero : Bool) (count n : Nat) : Option Number :=
  if n ≠ 0 ∧ (leadingZero ∨ Numeral.maxDigits < count) then none else some (integer n)

/-- A number of base 10. -/
def decimal (cs : List Char) : Option (Number × List Char) := do
  let (count, n, rest) ← digits 10 0 0 false cs
  match rest with
  | '.' :: rest => pointed n rest
  | 'e' :: _ | 'E' :: _ => pointed n rest
  | 'j' :: rest | 'J' :: rest => return (imaginary, rest)
  | rest => return (← decimalInteger (cs.head? == some '0') count n, rest)

/-- A number of another base, after its mark; an underscore may follow the mark. -/
def based (base : Nat) (cs : List Char) : Option (Number × List Char) :=
  let cs := match cs with
    | '_' :: rest => rest
    | cs => cs
  (digits base 0 0 false cs).map fun (_, n, rest) => (integer n, rest)

/-- The number at the beginning of a text, and what follows. -/
def read (cs : List Char) : Option (Number × List Char) := do
  let (n, rest) ← match cs with
    | '0' :: mark :: rest =>
      if mark = 'x' ∨ mark = 'X' then based 16 rest
      else if mark = 'o' ∨ mark = 'O' then based 8 rest
      else if mark = 'b' ∨ mark = 'B' then based 2 rest
      else decimal cs
    | '.' :: rest => pointed 0 rest
    | cs => decimal cs
  if endsBefore rest then return (n, rest) else none

/-- A number begins with a digit, or with a point and a digit. -/
def startsHere : List Char → Bool
  | '.' :: c :: _ => c.isDigit
  | c :: _ => c.isDigit
  | [] => false

end Number

end OrderedJobs.Expression
