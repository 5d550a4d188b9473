import OrderedJobs.Expression.Basic
import OrderedJobs.Expression.Quotation

/-! # Templates

A template is a text with fields in braces.  A field holds an expression, and after it perhaps an
equals sign, a conversion and a specification, which may have fields of its own.  Since the value of
a template does not show, `templateHeight` only checks it and finds its height. -/

namespace OrderedJobs.Expression

/-- What comes before the next field or the end, and what follows; `doubled` tells that it ends with
a brace that was doubled and that more text follows.  Within a specification no brace is doubled. -/
structure Piece where
  text : List Char
  rest : List Char
  doubled : Bool

/-- The piece at the beginning of a text, after `taken` in reverse.  A backslash takes the next
character with it, unless that is a brace, and a character's name stands in braces of its own. -/
def piece (raw nested : Bool) (fuel : Nat) (taken cs : List Char) : Option Piece :=
  match fuel, cs with
  | _, [] => some ⟨taken.reverse, [], false⟩
  | 0, _ => none
  | fuel + 1, c :: rest =>
    match c == '\\' && !raw, rest with
    | true, 'N' :: '\x7b' :: rest =>
      let name := rest.takeWhile (· != '\x7d')
      piece raw nested fuel
        ((rest.take (name.length + 1)).reverse ++ '\x7b' :: 'N' :: c :: taken)
        (rest.drop (name.length + 1))
    | true, e :: more =>
      if e = '\x7b' ∨ e = '\x7d' then piece raw nested fuel (c :: taken) rest
      else piece raw nested fuel (e :: c :: taken) more
    | _, _ =>
      if c ≠ '\x7b' ∧ c ≠ '\x7d' then piece raw nested fuel (c :: taken) rest
      else if nested then some ⟨taken.reverse, c :: rest, false⟩
      else if rest.head? = some c then some ⟨(c :: taken).reverse, rest.drop 1, true⟩
      else if c = '\x7b' then some ⟨taken.reverse, c :: rest, false⟩
      else none

/-- The bracket that closes another one. -/
def closing? (c : Char) : Option Char :=
  if c = '(' then some ')'
  else if c = '[' then some ']'
  else if c = '\x7b' then some '\x7d'
  else none

def isClosing (c : Char) : Bool := c == ')' || c == ']' || c == '\x7d'

/-- The most brackets around a part of an expression. -/
def maxBrackets : Nat := 200

/-- The text of the expression in a field, after `taken` in reverse, and what follows.  `quote` is
the mark of the quotation that is open, with whether it is a long one, and `brackets` are the
brackets that are to be closed. -/
def fieldText (quote : Option (Char × Bool)) (brackets : List Char) (fuel : Nat)
    (taken cs : List Char) : Option (List Char × List Char) :=
  match fuel, cs with
  | 0, _ | _, [] => none
  | fuel + 1, c :: rest =>
    if c = '\\' then none
    else
      match quote with
      | some (q, long) =>
        if c ≠ q then fieldText quote brackets fuel (c :: taken) rest
        else if !long then fieldText none brackets fuel (c :: taken) rest
        else if rest.take 2 = [c, c] then
          fieldText none brackets fuel (c :: c :: c :: taken) (rest.drop 2)
        else fieldText quote brackets fuel (c :: taken) rest
      | none =>
        if c = '\'' ∨ c = '"' then
          if rest.take 2 = [c, c] then
            fieldText (some (c, true)) brackets fuel (c :: c :: c :: taken) (rest.drop 2)
          else fieldText (some (c, false)) brackets fuel (c :: taken) rest
        else if c = '#' then none
        else if let some b := closing? c then
          if maxBrackets ≤ brackets.length then none
          else fieldText none (b :: brackets) fuel (c :: taken) rest
        else
          match brackets with
          | b :: brackets' =>
            if c = b then fieldText none brackets' fuel (c :: taken) rest
            else if isClosing c then none
            else fieldText none brackets fuel (c :: taken) rest
          | [] =>
            if "!=<>".contains c ∧ rest.head? = some '=' then
              fieldText none [] fuel ('=' :: c :: taken) (rest.drop 1)
            else if c = '!' ∨ c = ':' ∨ c = '\x7d' ∨ c = '=' then some (taken.reverse, c :: rest)
            else if isClosing c then none
            else fieldText none [] fuel (c :: taken) rest

/-- The character is white space of ASCII. -/
def isSpace (c : Char) : Bool := c.isWhitespace || c == '\x0b' || c == '\x0c'

/-- Skips an equals sign and the blanks after it. -/
def skipEquals : List Char → List Char
  | '=' :: rest => rest.dropWhile isSpace
  | cs => cs

/-- Skips a conversion. -/
def skipConversion : List Char → Option (List Char)
  | '!' :: c :: rest => if c = 's' ∨ c = 'r' ∨ c = 'a' then some rest else none
  | '!' :: [] => none
  | cs => some cs

/-- The text of the expression in a field, which must not be blank, and what follows it up to its
specification or its end. -/
def field? (cs : List Char) : Option (List Char × List Char) := do
  let (text, rest) ← fieldText none [] cs.length [] cs
  if text.all isSpace then none
  else return (text, ← skipConversion (skipEquals rest))

/-- The most specifications around a field. -/
def maxSpecifications : Nat := 1

/-- The height of a template, where `expression` gives the height of an expression within it, and
what follows.  It is within so many specifications, and what comes before it has a height too. -/
def templateHeight (expression : List Char → Except Trouble Nat) (raw : Bool) (fuel : Nat)
    (specifications height : Nat) (cs : List Char) : Except Trouble (Nat × List Char) :=
  match fuel with
  | 0 => .error .garbled
  | fuel + 1 =>
    match piece raw (0 < specifications) cs.length [] cs with
    | none => .error .garbled
    | some p =>
      if !raw && (unescape false p.text).isNone then .error .garbled
      else if p.doubled then templateHeight expression raw fuel specifications height p.rest
      else
        match p.rest with
        | '\x7b' :: rest =>
          if maxSpecifications < specifications then .error .garbled
          else
            match field? rest with
            | none => .error .garbled
            | some (text, rest) => do
              let inner ← expression text
              match rest with
              | '\x7d' :: rest =>
                templateHeight expression raw fuel specifications (max height (inner + 2)) rest
              | ':' :: rest =>
                let (outer, rest) ← templateHeight expression raw fuel (specifications + 1) 2 rest
                match rest with
                | '\x7d' :: rest =>
                  templateHeight expression raw fuel specifications
                    (max height (max inner outer + 2)) rest
                | _ => .error .garbled
              | _ => .error .garbled
        | rest => .ok (height, rest)

end OrderedJobs.Expression
