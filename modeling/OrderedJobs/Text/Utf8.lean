import OrderedJobs.Bytes

/-! # UTF-8 with ill-formed input

A byte string is cut into scalar values and ill-formed stretches.  A stretch is a maximal subpart
in the sense of the Unicode standard: the longest prefix of a well-formed sequence found at that
place, or a single byte that starts none.  `decodeLenient` writes U+FFFD for each stretch, and
`Piece` keeps the bytes for readers that show them otherwise. -/

namespace OrderedJobs.Utf8

/-- A scalar value with the bytes that spell it, or an ill-formed stretch. -/
inductive Piece where
  | scalar (c : Char) (bytes : Bytes)
  | illFormed (bytes : Bytes)
deriving DecidableEq, Repr

/-- An unfinished sequence: its bytes so far, latest first, the bits they carry, the number of
bytes still owed, and the bounds of the next one. -/
structure Unfinished where
  seen : Bytes
  bits : Nat
  owed : Nat
  low : UInt8
  high : UInt8

/-- The sequence that a lead byte opens, if it opens one of two bytes or more. -/
def Unfinished.ofLead? (b : UInt8) : Option Unfinished :=
  if 0xc2 ≤ b && b ≤ 0xdf then some ⟨[b], b.toNat % 32, 1, 0x80, 0xbf⟩
  else if b == 0xe0 then some ⟨[b], 0, 2, 0xa0, 0xbf⟩
  else if b == 0xed then some ⟨[b], 13, 2, 0x80, 0x9f⟩
  else if 0xe1 ≤ b && b ≤ 0xef then some ⟨[b], b.toNat % 16, 2, 0x80, 0xbf⟩
  else if b == 0xf0 then some ⟨[b], 0, 3, 0x90, 0xbf⟩
  else if 0xf1 ≤ b && b ≤ 0xf3 then some ⟨[b], b.toNat % 8, 3, 0x80, 0xbf⟩
  else if b == 0xf4 then some ⟨[b], 4, 3, 0x80, 0x8f⟩
  else none

/-- The reader between two bytes: the pieces so far, latest first, and what is unfinished. -/
structure Reader where
  done : List Piece := []
  unfinished : Option Unfinished := none

/-- Takes a byte that starts a sequence. -/
def Reader.start (done : List Piece) (b : UInt8) : Reader :=
  if b < 0x80 then ⟨.scalar (Char.ofNat b.toNat) [b] :: done, none⟩
  else match Unfinished.ofLead? b with
    | some u => ⟨done, some u⟩
    | none => ⟨.illFormed [b] :: done, none⟩

/-- Takes one byte: it continues the unfinished sequence if it may, and otherwise closes that one
as ill-formed and starts afresh. -/
def Reader.feed (r : Reader) (b : UInt8) : Reader :=
  match r.unfinished with
  | none => start r.done b
  | some u =>
    if u.low ≤ b && b ≤ u.high then
      let bits := u.bits * 64 + b.toNat % 64
      if u.owed ≤ 1 then ⟨.scalar (Char.ofNat bits) (b :: u.seen).reverse :: r.done, none⟩
      else ⟨r.done, some ⟨b :: u.seen, bits, u.owed - 1, 0x80, 0xbf⟩⟩
    else start (.illFormed u.seen.reverse :: r.done) b

/-- The pieces read, in order; what is unfinished at the end is ill-formed. -/
def Reader.finish (r : Reader) : List Piece :=
  match r.unfinished with
  | none => r.done.reverse
  | some u => (.illFormed u.seen.reverse :: r.done).reverse

/-- A byte string cut into scalar values and maximal ill-formed subparts. -/
def pieces (b : Bytes) : List Piece := (b.foldl Reader.feed {}).finish

/-- The byte string spells a text. -/
def isWellFormed (b : Bytes) : Bool :=
  (pieces b).all fun
    | .scalar .. => true
    | .illFormed _ => false

/-- The text of a byte string, with U+FFFD for every maximal ill-formed subpart. -/
def decodeLenient (b : Bytes) : String :=
  String.ofList <| (pieces b).map fun
    | .scalar c _ => c
    | .illFormed _ => '\uFFFD'

end OrderedJobs.Utf8
