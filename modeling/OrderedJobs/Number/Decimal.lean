/-! # Decimals on a binary grid

A decimal numeral denotes an exact number, `mantissa * 10 ^ exponent`.  Numbers are kept in the
64-bit binary format, so what counts is the nearest number of that format: 53 significant bits,
none finer than 2 ^ -1074, none of 2 ^ 1024 or more, and a half goes to the even neighbour.
`Decimal.rounded` gives that number, as far as it is an integer. -/

namespace OrderedJobs

/-- The number `mantissa * 10 ^ exponent`. -/
structure Decimal where
  mantissa : Int
  exponent : Int
deriving DecidableEq, Repr

/-- A number of the binary format. -/
inductive Rounded where
  | integer (n : Int)
  /-- A number that is no integer. -/
  | fractional
  /-- Beyond the greatest number. -/
  | infinite
deriving DecidableEq, Repr

/-- The quotient rounded to the nearest natural number; a half goes to the even neighbour. -/
def roundHalfEven (num den : Nat) : Nat :=
  let q := num / den
  let r := num % den
  if 2 * r < den then q
  else if den < 2 * r then q + 1
  else q + q % 2

namespace Decimal

/-- The exponent of the leading bit of a positive quotient: the greatest `k` with
`2 ^ k ≤ num / den`. -/
def leadingBit (num den : Nat) : Int :=
  let k : Int := (Nat.log2 num : Int) - Nat.log2 den
  if den <<< k.toNat ≤ num <<< (-k).toNat then k else k - 1

/-- The nearest number of the binary format to a positive quotient, with the sign `sign`. -/
def nearest (sign : Int) (num den : Nat) : Rounded :=
  let grid : Int := max (leadingBit num den - 52) (-1074)
  let n := roundHalfEven (num <<< (-grid).toNat) (den <<< grid.toNat)
  if 0 ≤ grid then
    if n <<< grid.toNat < 1 <<< 1024 then .integer (sign * (n <<< grid.toNat : Nat)) else .infinite
  else if n % (1 <<< (-grid).toNat) = 0 then .integer (sign * (n >>> (-grid).toNat : Nat))
  else .fractional

/-- The number of the binary format that a decimal denotes.  Exponents far outside the format's
range are settled without computing the power. -/
def rounded (d : Decimal) : Rounded :=
  let m := d.mantissa.natAbs
  if m = 0 then .integer 0
  else if 400 < d.exponent then .infinite
  else if d.exponent + (Nat.log2 m : Int) < -400 then .integer 0
  else nearest d.mantissa.sign (m * Nat.pow 10 d.exponent.toNat) (Nat.pow 10 (-d.exponent).toNat)

end Decimal

end OrderedJobs
