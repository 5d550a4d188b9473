import OrderedJobs.Expression.Reader

/-! # The grammar of expressions

An expression is made of phrases that lie within each other.  The loosest one is a choice or a
function, then come the operations from the loosest to the tightest, and the tightest one is an
atom.  A rule of the grammar reads one phrase, given how the phrases within it are read; the rules
of operations are here.

There is only so much room for phrases within each other, and the rules count some that are not
listed here: `inner between p` reads a phrase `p` with so many more phrases `between` it and the one
that is being read.  A text that spells no expression is read once `again`, to see where it goes
wrong, and that takes some more room. -/

namespace OrderedJobs.Expression

/-- The tiers of operations with two operands. -/
inductive Tier where
  | disjoin
  | differ
  | conjoin
  | shift
  | add
  | multiply
deriving DecidableEq, Repr

inductive Phrase where
  | named
  | expression
  | disjunction
  | conjunction
  | inversion
  | comparison
  | operation (t : Tier)
  | factor
  | power
  | awaited
  | primary
  | atom
  | quotations
deriving DecidableEq, Repr

/-- How the phrases within a phrase are read. -/
abbrev Inner := Nat → Phrase → Reader Expression

open Reader

/-! ### Operations -/

namespace Tier

/-- The marks of the operations of a tier. -/
def marks : Tier → List String
  | disjoin => ["|"]
  | differ => ["^"]
  | conjoin => ["&"]
  | shift => ["<<", ">>"]
  | add => ["+", "-"]
  | multiply => ["*", "/", "//", "%", "@"]

/-- The phrases that operations of a tier join. -/
def operand : Tier → Phrase
  | disjoin => .operation differ
  | differ => .operation conjoin
  | conjoin => .operation shift
  | shift => .operation add
  | add => .operation multiply
  | multiply => .factor

/-- Two operands joined by an operation of the tier. -/
def join : Tier → Expression → Expression → Expression
  | add, left, right => added left right
  | _, left, right => compound [left, right]

end Tier

namespace Rule

variable (inner : Inner)

/-- Operands with one word between them, which together make one compound. -/
def joined (word : String) (operand : Phrase) : Reader Expression := do
  let first ← inner 0 operand
  let rest ← many do
    if ← accept word then return some (← inner 2 operand) else return none
  return if rest.isEmpty then first else compound (first :: rest)

def inversion : Reader Expression := do
  if ← accept "not" then return compound [← inner 0 .inversion] else inner 0 .comparison

/-- Takes the mark of a comparison, which may be made of two words. -/
def acceptComparison : Reader Bool := fun ts =>
  match ts with
  | .mark "is" :: .mark "not" :: rest | .mark "not" :: .mark "in" :: rest => .ok (true, rest)
  | ts => (acceptOne ["==", "!=", "<", "<=", ">", ">=", "in", "is"] ts).map fun (m, rest) =>
      (m.isSome, rest)

def comparison : Reader Expression := do
  let first ← inner 0 (.operation .disjoin)
  let rest ← many do
    if ← acceptComparison then return some (← inner 3 (.operation .disjoin)) else return none
  return if rest.isEmpty then first else compound (first :: rest)

/-- Operations of a tier are joined from left to right. -/
def operation (t : Tier) : Reader Expression := do
  let first ← inner 1 t.operand
  let rest ← many do
    match ← acceptOne t.marks with
    | some _ => return some (← inner 1 t.operand)
    | none => return none
  return rest.foldl t.join first

def factor : Reader Expression := do
  match ← acceptOne ["+", "-", "~"] with
  | some "~" => return compound [← inner 0 .factor]
  | some sign => return signed (sign == "-") (← inner 0 .factor)
  | none => inner 0 .power

def power : Reader Expression := do
  let base ← inner 0 .awaited
  if ← accept "**" then return compound [base, ← inner 0 .factor] else return base

def awaited : Reader Expression := do
  if ← accept "await" then return compound [← inner 0 .primary] else inner 0 .primary

end Rule

end OrderedJobs.Expression
