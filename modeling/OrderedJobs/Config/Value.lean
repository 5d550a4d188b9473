import OrderedJobs.Bytes
import OrderedJobs.Number.Decimal
import OrderedJobs.Number.Numeral
import OrderedJobs.Text.Utf8

/-! # Configuration values

The values that a configuration may be given, and how they are read as numbers and as truth values.
Reading is lenient: a number may be written out as a text or be given with a fraction of zeros, and
a truth value may be one of the usual words. -/

namespace OrderedJobs.Config

inductive Value where
  | null
  | bool (b : Bool)
  | int (n : Int)
  | real (d : Decimal)
  | text (s : String)
  /-- A text with something in it that is no character. -/
  | illFormed
  | bytes (b : Bytes)
  | list (vs : List Value)
  | object
deriving Inhabited

/-- Why a value is no acceptable number. -/
inductive NumberFault where
  /-- It is of a kind that holds no numbers. -/
  | notNumeric
  /-- It is a text with something in it that is no character. -/
  | illFormed
  /-- It is a text, and no numeral. -/
  | text (fault : Numeral.Fault)
  /-- It is a decimal too large for a machine word. -/
  | oversized
  /-- It is a number that is no integer. -/
  | fractional
  | infinite
  | tooSmall
  | tooLarge
deriving DecidableEq, Repr

/-- Why a value is no truth value. -/
inductive TruthFault where
  | notTruth
  | illFormed
  | unreadable
deriving DecidableEq, Repr

def TruthFault.message : TruthFault → String
  | notTruth => "Input should be a valid boolean"
  | illFormed => "Input should be a valid string, unable to parse raw data as a unicode string"
  | unreadable => "Input should be a valid boolean, unable to interpret input"

namespace Value

/-- The integer fits in a signed word of 64 bits. -/
def isWord (n : Int) : Bool := decide (-0x8000000000000000 ≤ n) && decide (n < 0x8000000000000000)

/-- The integer fits in such a word, and is not its least value. -/
def isInnerWord (n : Int) : Bool :=
  decide (-0x8000000000000000 < n) && decide (n < 0x8000000000000000)

/-- Reads a value as an integer. -/
def toNumber : Value → Except NumberFault Int
  | int n => .ok n
  | bool b => .ok (if b then 1 else 0)
  | real d =>
    match d.rounded with
    | .integer n => if isInnerWord n then .ok n else .error .oversized
    | .fractional => .error .fractional
    | .infinite => .error .infinite
  | text s => (Numeral.read s).mapError .text
  | illFormed => .error .illFormed
  | bytes b =>
    if Utf8.isWellFormed b then (Numeral.read (Utf8.decodeLenient b)).mapError .text
    else .error (.text .unreadable)
  | null | list _ | object => .error .notNumeric

/-- The truth value that an integer stands for. -/
def truthOfInt (n : Int) : Except TruthFault Bool :=
  if n = 0 then .ok false else if n = 1 then .ok true else .error .unreadable

/-- The words for a truth value, in lower case. -/
def falseWords : List String := ["0", "off", "f", "false", "n", "no"]
def trueWords : List String := ["1", "on", "t", "true", "y", "yes"]

/-- The truth value that a word stands for, in any mix of cases. -/
def truthOfWord (s : String) : Except TruthFault Bool :=
  let word := String.ofList (s.toList.map Char.toLower)
  if word ∈ falseWords then .ok false
  else if word ∈ trueWords then .ok true
  else .error .unreadable

/-- Reads a value as a truth value. -/
def toTruth : Value → Except TruthFault Bool
  | bool b => .ok b
  | int n => if isWord n then truthOfInt n else .error .notTruth
  | real d =>
    match d.rounded with
    | .integer n => if isInnerWord n then truthOfInt n else .error .notTruth
    | .fractional | .infinite => .error .notTruth
  | text s => truthOfWord s
  | illFormed => .error .illFormed
  | bytes b =>
    if Utf8.isWellFormed b then truthOfWord (Utf8.decodeLenient b) else .error .unreadable
  | null | list _ | object => .error .notTruth

end Value

end OrderedJobs.Config
