/-! # Byte strings

Lines, arguments and outputs are byte strings: lists of octets, with no assumption about the text
they may encode.  This module holds the few octets the library names, the conversion from text, and
the two ways of looking at the end and the joints of a byte string. -/

namespace OrderedJobs

/-- A byte string. -/
abbrev Bytes := List UInt8

namespace Bytes

/-- The line terminator. -/
def newline : UInt8 := 0x0a

/-- The separator between the words of a line. -/
def space : UInt8 := 0x20

/-- The UTF-8 encoding of a text. -/
def ofString (s : String) : Bytes := s.toList.flatMap String.utf8EncodeChar

/-- The byte string ends in a line terminator. -/
def endsLine (b : Bytes) : Bool := b.getLast? == some newline

/-- The words of a command with one space between neighbours. -/
def joinWords (ws : List Bytes) : Bytes := [space].intercalate ws

@[simp] theorem endsLine_nil : endsLine [] = false := rfl

@[simp] theorem endsLine_append_singleton (b : Bytes) (x : UInt8) :
    endsLine (b ++ [x]) = (x == newline) := by
  simp [endsLine]

theorem endsLine_append {b c : Bytes} (h : c ≠ []) : endsLine (b ++ c) = endsLine c := by
  simp [endsLine, List.getLast?_append, List.getLast?_eq_some_getLast h]

@[simp] theorem joinWords_nil : joinWords [] = [] := rfl

@[simp] theorem joinWords_singleton (w : Bytes) : joinWords [w] = w := by
  simp [joinWords, List.intercalate]

theorem joinWords_cons_cons (w v : Bytes) (ws : List Bytes) :
    joinWords (w :: v :: ws) = w ++ space :: joinWords (v :: ws) := by
  simp [joinWords, List.intercalate]

end Bytes

end OrderedJobs
