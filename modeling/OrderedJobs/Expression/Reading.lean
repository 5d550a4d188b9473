import OrderedJobs.Expression.Atom
import OrderedJobs.Expression.Function
import OrderedJobs.Expression.Trailer

/-! # Reading expressions

`Phrase.rule` collects the rules of the grammar, `read` reads a phrase by them, with room for so
many phrases within each other, and `ofText` reads the expression that a whole text spells. -/

namespace OrderedJobs.Expression

/-- Reads a phrase, given how the phrases within it are read; `again` is 1 if the text is being read
once more, and otherwise 0. -/
def Phrase.rule (inner : Inner) (again : Nat) : Phrase → Reader Expression
  | .named => Rule.named inner again
  | .expression => Rule.choice inner again
  | .disjunction => Rule.joined inner "or" .conjunction
  | .conjunction => Rule.joined inner "and" .inversion
  | .inversion => Rule.inversion inner
  | .comparison => Rule.comparison inner
  | .operation t => Rule.operation inner t
  | .factor => Rule.factor inner
  | .power => Rule.power inner
  | .awaited => Rule.awaited inner
  | .primary => Rule.primary inner
  | .atom => Rule.atom inner
  | .quotations => Rule.quotations

/-- Reads a phrase, with room for so many phrases within each other. -/
def read (again : Nat) : (room : Nat) → Phrase → Reader Expression
  | 0, _ => throw (.fault .outOfRoom)
  | room + 1, p => p.rule (fun between q => read again (room - between) q) again
termination_by room => room
decreasing_by omega

/-- The most phrases within each other. -/
def maxRoom : Nat := 6000

/-- Runs a reader, which must take all tokens.  If they make no expression, it is run once more,
which may show that there is not enough room. -/
def readAll (r : (again : Nat) → Reader Expression) (ts : List Token) : Except Trouble Expression :=
  match once 0 with
  | .error .unreadable =>
    match once 1 with
    | .ok _ => .error .unreadable
    | .error why => .error why
  | result => result
where
  once (again : Nat) : Except Trouble Expression :=
    match r again ts with
    | .ok (e, []) => .ok e
    | .ok (_, _ :: _) => .error .unreadable
    | .error why => .error why

/-- The height of an expression in a field of a template.  It is read as if in parentheses, so that
it may start with blanks.  Within each other there are at most as many templates as there are
delimiters. -/
def heightOfField : (templates : Nat) → List Char → Except Trouble Nat
  | 0, _ => .error .garbled
  | templates + 1, cs =>
    let ts := tokens (heightOfField templates) ('(' :: cs ++ [')'])
    (readAll (fun again => read again (maxRoom - 3) .expression) ts).map Expression.height

/-- The number of delimiters: two marks, short or long. -/
def maxTemplates : Nat := 4

/-- Reads one expression or several, which make a tuple. -/
def whole (again : Nat) : Reader Expression := do
  let first ← read again (maxRoom - 2) .expression
  if ← Reader.comes "," then
    return sequence .tuple (first :: (← Reader.moreItems (read again (maxRoom - 4) .expression)))
  else return first

/-- The expression that a whole text spells. -/
def ofText (text : List Char) : Except Trouble Expression :=
  match skipBlankLines (unifyLines text) with
  | none => .error .garbled
  | some cs => readAll whole (tokens (heightOfField maxTemplates) cs)

end OrderedJobs.Expression
