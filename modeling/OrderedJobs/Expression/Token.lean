import OrderedJobs.Expression.Layout
import OrderedJobs.Expression.Template

/-! # Tokens

An expression is read from tokens.  `tokens` cuts a text into them.  A part that is no token makes
one too, which says what is wrong, so that it counts only if reading gets there. -/

namespace OrderedJobs.Expression

inductive Token where
  | number (n : Number)
  /-- A word with a value of its own, or three points. -/
  | constant (v : Config.Value)
  | identifier (text : String)
  /-- A text, or the octets of a byte string as characters. -/
  | quotation (octets : Bool) (content : List Char)
  | template (height : Nat)
  /-- A mark, or a word with a meaning in the grammar. -/
  | mark (text : String)
  | broken (why : Trouble)

/-- Words that are no identifiers. -/
def reserved : List String := [
  "and", "as", "assert", "async", "await", "break", "class", "continue", "def", "del", "elif",
  "else", "except", "finally", "for", "from", "global", "if", "import", "in", "is", "lambda",
  "nonlocal", "not", "or", "pass", "raise", "return", "try", "while", "with", "yield"]

/-- The marks, longer ones first. -/
def marks : List String := [
  "**=", "//=", "<<=", ">>=", "...",
  "!=", "%=", "&=", "**", "*=", "+=", "-=", "->", "//", "/=", ":=", "<<", "<=", "<>", "==", ">=",
  ">>", "@=", "^=", "|=",
  "%", "&", "(", ")", "*", "+", ",", "-", ".", "/", ":", ";", "<", "=", ">", "@", "[", "]", "^",
  "\x7b", "|", "\x7d", "~"]

namespace Token

/-- The token of a word. -/
def ofWord (cs : List Char) : Token :=
  let text := String.ofList cs
  if text = "True" then constant (.bool true)
  else if text = "False" then constant (.bool false)
  else if text = "None" then constant .null
  else if reserved.contains text then mark text
  else if Identifier.isIdentifier cs then identifier text
  else broken .garbled

/-- The token of a quotation, where `expression` gives the height of an expression in a field. -/
def ofQuotation (expression : List Char → Except Trouble Nat) (d : Delimiter) (body : List Char) :
    Token :=
  if d.style = .template then
    match templateHeight expression d.raw (body.length + 2) 0 2 body with
    | .ok (height, _) => template height
    | .error (.fault f) => broken (.fault f)
    | .error _ => broken .garbled
  else
    match d.content body with
    | some content => quotation (d.style = .octets) content
    | none => broken .garbled

/-- The brackets that are to be closed after a mark, if it may stand there. -/
def brackets? (brackets : List Char) (text : String) : Option (List Char) :=
  match text.toList with
  | [c] =>
    if let some b := closing? c then
      if maxBrackets ≤ brackets.length then none else some (b :: brackets)
    else if isClosing c then
      match brackets with
      | b :: rest => if c = b then some rest else none
      | [] => none
    else some brackets
  | _ => some brackets

end Token

/-- The first token of a text that does not start with a gap, what follows, and the brackets that
are then to be closed. -/
def token (expression : List Char → Except Trouble Nat) (brackets : List Char) (cs : List Char) :
    Token × List Char × List Char :=
  if Number.startsHere cs then
    match Number.read cs with
    | some (n, rest) => (.number n, rest, brackets)
    | none => (.broken .garbled, [], [])
  else
    match delimiter? cs with
    | some (d, rest) =>
      match d.body [] rest with
      | some (body, rest) => (.ofQuotation expression d body, rest, brackets)
      | none => (.broken .garbled, [], [])
    | none =>
      let word := cs.takeWhile Number.isWordCharacter
      if !word.isEmpty then (.ofWord word, cs.drop word.length, brackets)
      else
        match marks.find? (·.toList.isPrefixOf cs) with
        | none => (.broken .garbled, [], [])
        | some text =>
          match Token.brackets? brackets text with
          | none => (.broken .garbled, [], [])
          | some brackets =>
            (if text = "..." then .constant .object else .mark text, cs.drop text.length, brackets)

/-- The tokens of the line of an expression, where `expression` gives the height of an expression
within a template.  All brackets must be closed, and nothing but blank lines and comments may
follow. -/
def tokens (expression : List Char → Except Trouble Nat) (cs : List Char) : List Token :=
  go (cs.length + 1) [] [] cs
where
  /-- `taken` are the tokens that come before, in reverse. -/
  go (fuel : Nat) (brackets : List Char) (taken : List Token) (cs : List Char) : List Token :=
    let cs := skipGap (!brackets.isEmpty) cs
    match fuel, cs with
    | 0, _ => taken.reverse
    | _, [] => if brackets.isEmpty then taken.reverse else (.broken .garbled :: taken).reverse
    | fuel + 1, c :: rest =>
      if c = '\n' ∨ c = '#' then
        if skipBlankLines (c :: rest) = some [] then taken.reverse
        else (.broken .garbled :: taken).reverse
      else
        let (t, rest, brackets) := token expression brackets (c :: rest)
        go fuel brackets (t :: taken) rest

end OrderedJobs.Expression
