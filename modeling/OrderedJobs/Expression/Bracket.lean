import OrderedJobs.Expression.Phrase

/-! # Expressions in brackets

Parentheses hold an expression, a tuple or a generator; brackets a list, and braces a set or a
dictionary.  Instead of its items, what a container is made of may be given by clauses. -/

namespace OrderedJobs.Expression.Rule

open Reader

variable (inner : Inner)

/-! ### Items -/

/-- An item of a container; `starred` tells that its own items are meant. -/
structure Item where
  starred : Bool := false
  expression : Expression

/-- An expression whose items are meant. -/
def starred (e : Expression) : Expression := { compound [e] with assignable := e.assignable }

/-- Reads an expression that may be given a name. -/
def named (again : Nat) : Reader Expression := do
  if ← acceptBefore ":=" then return compound [← inner 1 .expression]
  else inner again .expression

/-- Reads an item of a container. -/
def item (between : Nat) : Reader Item := do
  if ← accept "*" then return ⟨true, starred (← inner between (.operation .disjoin))⟩
  else return ⟨false, ← inner between .named⟩

/-! ### Clauses -/

/-- Reads a target, which must be something that may be assigned to. -/
def target : Reader Expression := do
  let isStarred ← accept "*"
  let e ← inner 8 .primary
  if !e.assignable then fail
  else return if isStarred then starred e else e

/-- Reads one target or several. -/
def targets : Reader Expression := do
  let first ← target inner
  if ← comes "," then return compound (first :: (← moreItems (target inner))) else return first

/-- Reads the clauses of a comprehension, if there are any: what runs through what, and on what
conditions. -/
def clauses : Reader (List Expression) :=
  many do
    let isAsync ← accept "async"
    if ← accept "for" then
      let left ← targets inner
      expect "in"
      let right ← inner 5 .disjunction
      let conditions ← many do
        if ← accept "if" then return some (← inner 7 .disjunction) else return none
      return some (compound (left :: right :: conditions))
    else if isAsync then fail
    else return none

/-- A first item with the clauses that follow it, if there are any. -/
def comprehension? (first : Item) : Reader (Option Expression) := do
  if first.starred then return none
  else
    let cs ← clauses inner
    return if cs.isEmpty then none else some (compound (first.expression :: cs))

/-! ### Brackets -/

/-- Reads what comes after the word "yield". -/
def yielded : Reader Expression := do
  if ← accept "from" then return compound [← inner 4 .expression]
  else
    match ← optional (value 6) with
    | none => return compound []
    | some first =>
      if ← comes "," then return compound [compound (first :: (← moreItems (value 8)))]
      else return compound [first]
where
  /-- A value that is handed over. -/
  value (between : Nat) : Reader Expression := do
    if ← accept "*" then return starred (← inner between (.operation .disjoin))
    else inner between .expression

/-- Reads what follows an opening parenthesis. -/
def parenthesized : Reader Expression := do
  if ← accept "yield" then
    let e ← yielded inner
    expect ")"
    return e
  else
    match ← optional (item inner 4) with
    | none =>
      expect ")"
      return sequence .tuple []
    | some first =>
      if ← accept "," then
        let second ← optional (item inner 6)
        let rest ← if second.isSome then moreItems (item inner 7) else pure []
        expect ")"
        return sequence .tuple ((first :: second.toList ++ rest).map Item.expression)
      else if first.starred then fail
      else
        let e := (← comprehension? inner first).getD first.expression
        expect ")"
        return e

/-- Reads what follows an opening bracket that starts no subscript. -/
def bracketed : Reader Expression := do
  match ← optional (item inner 5) with
  | none =>
    expect "]"
    return sequence .list []
  | some first =>
    match ← comprehension? inner first with
    | some e =>
      expect "]"
      return e
    | none =>
      let rest ← moreItems (item inner 6)
      expect "]"
      return sequence .list ((first :: rest).map Item.expression)

/-- Reads an entry of a dictionary, which may be a whole dictionary. -/
def entry (between : Nat) : Reader (List Expression) := do
  if ← accept "**" then
    return [{ compound [] with height := 0 }, ← inner (between - 1) (.operation .disjoin)]
  else
    let key ← inner between .expression
    expect ":"
    return [key, ← inner between .expression]

/-- Reads the other entries of a dictionary, up to its end. -/
def moreEntries (first : List Expression) : Reader Expression := do
  let rest ← moreItems (entry inner 7)
  expect "\x7d"
  return container .dictionary (first ++ rest.flatten)

/-- Reads the first item after an opening brace, which may be a key. -/
def firstOfBraces : Reader Item := do
  if (← comes "*") || (← comesBefore ":=") then item inner 5
  else return ⟨false, ← inner 6 .expression⟩

/-- Reads what follows an opening brace. -/
def braced : Reader Expression := do
  if ← comes "**" then
    moreEntries inner (← entry inner 6)
  else
    let mayBeKey := !((← comes "*") || (← comesBefore ":="))
    match ← optional (firstOfBraces inner) with
    | none =>
      expect "\x7d"
      return container .dictionary []
    | some first =>
      if ← (if mayBeKey then accept ":" else pure false) then
        let value ← inner 6 .expression
        let cs ← clauses inner
        if cs.isEmpty then
          moreEntries inner [first.expression, value]
        else
          expect "\x7d"
          return compound (first.expression :: value :: cs)
      else
        match ← comprehension? inner first with
        | some e =>
          expect "\x7d"
          return e
        | none =>
          let rest ← moreItems (item inner 6)
          expect "\x7d"
          return container .set ((first :: rest).map Item.expression)

end OrderedJobs.Expression.Rule
