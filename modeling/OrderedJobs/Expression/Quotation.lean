import OrderedJobs.Expression.Number
import OrderedJobs.Text.CharacterName

/-! # Quotations

A quotation stands between delimiters, which also tell how its body is taken: `Delimiter.body` finds
the body, and `Delimiter.content` says what it stands for. -/

namespace OrderedJobs.Expression

/-! ### Delimiters -/

/-- What the letters in front of a quotation make of it. -/
inductive Style where
  | text
  /-- A byte string. -/
  | octets
  /-- A text with fields to be filled in. -/
  | template
deriving DecidableEq, Repr

/-- What a quotation stands between: one quotation mark or three, after letters that give it a style
and may mark it as raw, so that a backslash always stands for itself. -/
structure Delimiter where
  mark : Char
  long : Bool
  raw : Bool
  style : Style

/-- What letters before a quotation mark it as: whether as raw, and its style. -/
def style? (letters : List Char) : Option (Bool × Style) :=
  match letters.map Char.toLower with
  | [] | ['u'] => some (false, .text)
  | ['r'] => some (true, .text)
  | ['b'] => some (false, .octets)
  | ['b', 'r'] | ['r', 'b'] => some (true, .octets)
  | ['f'] => some (false, .template)
  | ['f', 'r'] | ['r', 'f'] => some (true, .template)
  | _ => none

/-- The delimiter at the beginning of a quotation, and what follows it. -/
def delimiter? (cs : List Char) : Option (Delimiter × List Char) := do
  let letters := (cs.takeWhile Char.isAlpha).take 3
  let (raw, style) ← style? letters
  match cs.drop letters.length with
  | [] => none
  | q :: rest =>
    if q ≠ '\'' ∧ q ≠ '"' then none
    else if rest.take 2 = [q, q] then return (⟨q, true, raw, style⟩, rest.drop 2)
    else return (⟨q, false, raw, style⟩, rest)

/-- What stands up to the closing mark, after `taken` in reverse, and what follows the mark.  Only
between long marks may it run over lines, and a mark after a backslash does not close. -/
def Delimiter.body (d : Delimiter) (taken : List Char) : List Char → Option (List Char × List Char)
  | [] => none
  | c :: rest =>
    if c = d.mark ∧ !d.long then some (taken.reverse, rest)
    else if c = d.mark ∧ rest.take 2 = [c, c] then some (taken.reverse, rest.drop 2)
    else if c = '\n' ∧ !d.long then none
    else if c = '\\' then
      match rest with
      | [] => none
      | e :: rest => d.body (e :: c :: taken) rest
    else d.body (c :: taken) rest

/-! ### Backslashes -/

/-- The character that a letter stands for after a backslash. -/
def simpleEscape? (c : Char) : Option Char :=
  match c with
  | '\\' => some '\\'
  | '\'' => some '\''
  | '"' => some '"'
  | 'a' => some '\x07'
  | 'b' => some '\x08'
  | 'f' => some '\x0c'
  | 'n' => some '\n'
  | 'r' => some '\r'
  | 't' => some '\t'
  | 'v' => some '\x0b'
  | _ => none

/-- The greatest code point. -/
def maxCodePoint : Nat := 0x10ffff

/-- The character of exactly `count` digits of base 16 after the number `n`, and what follows. -/
def hexEscape (n : Nat) : (count : Nat) → List Char → Option (List Char × List Char)
  | 0, cs => if maxCodePoint < n then none else some ([Char.ofNat n], cs)
  | _ + 1, [] => none
  | count + 1, c :: rest =>
    match Number.digit? 16 c with
    | some d => hexEscape (n * 16 + d) count rest
    | none => none

/-- The character of up to two more digits of base 8 after the digit `d`, and what follows.  An
octet keeps the low bits only. -/
def octalEscape (octets : Bool) (d : Nat) (cs : List Char) : List Char × List Char :=
  let more := (cs.take 2).takeWhile fun c => (Number.digit? 8 c).isSome
  let n := more.foldl (fun n c => n * 8 + (Number.digit? 8 c).getD 0) d
  ([Char.ofNat (if octets then n % 256 else n)], cs.drop more.length)

/-- The character of a name in braces, and what follows. -/
def namedEscape : List Char → Option (List Char × List Char)
  | '\x7b' :: cs =>
    let name := cs.takeWhile (· != '\x7d')
    match CharacterName.character? name, cs.drop name.length with
    | some c, _ :: rest => some ([c], rest)
    | _, _ => none
  | _ => none

/-- What a backslash stands for with the characters after it, and what follows.  At the end, and
before a letter that has no meaning, it stands for itself. -/
def escape (octets : Bool) : List Char → Option (List Char × List Char)
  | [] => some (['\\'], [])
  | e :: rest =>
    match simpleEscape? e, Number.digit? 8 e with
    | some c, _ => some ([c], rest)
    | none, some d => some (octalEscape octets d rest)
    | none, none =>
      if e = '\n' then some ([], rest)
      else if e = 'x' then hexEscape 0 2 rest
      else if octets then some (['\\', e], rest)
      else if e = 'u' then hexEscape 0 4 rest
      else if e = 'U' then hexEscape 0 8 rest
      else if e = 'N' then namedEscape rest
      else some (['\\', e], rest)

/-- What a body stands for, its backslashes resolved. -/
def unescape (octets : Bool) (cs : List Char) : Option (List Char) := go cs.length [] cs
where
  /-- `taken` is what comes before, in reverse. -/
  go (fuel : Nat) (taken cs : List Char) : Option (List Char) :=
    match fuel, cs with
    | _, [] => some taken.reverse
    | 0, _ => none
    | fuel + 1, c :: rest =>
      if c = '\\' then
        match escape octets rest with
        | some (cs, rest) => go fuel (cs.reverse ++ taken) rest
        | none => none
      else go fuel (c :: taken) rest

/-- What the body of a quotation stands for.  A byte string is written in ASCII. -/
def Delimiter.content (d : Delimiter) (body : List Char) : Option (List Char) :=
  if d.style = .octets ∧ body.any (0x7f < ·.toNat) then none
  else if d.raw then some body
  else unescape (d.style = .octets) body

end OrderedJobs.Expression
