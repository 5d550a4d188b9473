import OrderedJobs.Text.Printable
import OrderedJobs.Text.Utf8

/-! # Quoted byte strings

A byte string is shown between quotation marks: single ones, or double ones when it holds a single
but no double quotation mark.  Characters that are not printable are escaped by their code point, in
the shortest of three forms, and a byte that belongs to no character is written as the lone
surrogate U+DC00 plus the byte, so that different byte strings have different quotations. -/

namespace OrderedJobs.Quoted

/-- A digit of base 16. -/
def hexDigit (n : Nat) : Char := if n < 10 then Char.ofNat (48 + n) else Char.ofNat (87 + n)

/-- The last `width` digits of a number in base 16. -/
def hex : (width : Nat) → Nat → List Char
  | 0, _ => []
  | width + 1, n => hex width (n / 16) ++ [hexDigit (n % 16)]

/-- The quotation mark for a text. -/
def mark (text : List Char) : Char :=
  if text.contains '\'' && !text.contains '"' then '"' else '\''

/-- A code point as an escape sequence. -/
def escaped (n : Nat) : List Char :=
  if n ≤ 0xff then '\\' :: 'x' :: hex 2 n
  else if n ≤ 0xffff then '\\' :: 'u' :: hex 4 n
  else '\\' :: 'U' :: hex 8 n

/-- A character between the quotation marks `quote`. -/
def character (quote c : Char) : List Char :=
  if c = quote ∨ c = '\\' then ['\\', c]
  else if c = '\n' then ['\\', 'n']
  else if c = '\r' then ['\\', 'r']
  else if c = '\t' then ['\\', 't']
  else if Printable.isPrintable c then [c]
  else escaped c.toNat

/-- A piece of a byte string between quotation marks. -/
def piece (quote : Char) : Utf8.Piece → List Char
  | .scalar c _ => character quote c
  | .illFormed bytes => bytes.flatMap fun b => escaped (0xdc00 + b.toNat)

/-- A byte string in quotation marks. -/
def quote (b : Bytes) : String :=
  let pieces := Utf8.pieces b
  let m := mark <| pieces.filterMap fun
    | .scalar c _ => some c
    | .illFormed _ => none
  String.ofList (m :: (pieces.flatMap (piece m) ++ [m]))

end OrderedJobs.Quoted
