import OrderedJobs.Expression.Bracket

/-! # Calls, subscripts and attributes

What may be done to an atom, any number of times. -/

namespace OrderedJobs.Expression.Rule

open Reader

variable (inner : Inner)

/-! ### Calls and subscripts -/

/-- What kinds of arguments may still come: all, only those by name and lists, or only those by name
and dictionaries. -/
inductive Arguments where
  | all
  | named
  | mapped
deriving DecidableEq, Repr

/-- Reads an argument that is given by position, and may be given a name. -/
def positional (between : Nat) : Reader Expression := do
  if ← acceptBefore ":=" then return compound [← inner (between + 1) .expression]
  else inner between .expression

/-- Reads an argument, and what may come after it. -/
def argument (allowed : Arguments) (between : Nat) : Reader (Expression × Arguments) := do
  if ← accept "**" then return (compound [← inner between .expression], .mapped)
  else if ← accept "*" then
    if allowed = .mapped then fail
    else return (compound [← inner between .expression], allowed)
  else if ← acceptBefore "=" then
    return (compound [← inner between .expression], if allowed = .all then .named else allowed)
  else if allowed = .all then return (← positional inner between, .all)
  else fail

/-- Reads the arguments after a comma, after `taken` in reverse.  There are no more of them than
tokens `left`. -/
def moreArguments (left : List Token) (allowed : Arguments) (taken : List Expression) :
    Reader (List Expression) := do
  match left with
  | [] => return taken.reverse
  | _ :: left =>
    if ← accept "," then
      match ← optional (argument inner allowed 7) with
      | none => return taken.reverse
      | some (e, allowed) => moreArguments left allowed (e :: taken)
    else return taken.reverse

/-- Reads the arguments of a call, after its opening parenthesis.  A comprehension may be the only
argument. -/
def arguments : Reader (List Expression) := do
  if (← comes "**") || (← comes "*") || (← comesBefore "=") then
    let (e, allowed) ← argument inner .all 6
    others e allowed
  else
    match ← optional (positional inner 3) with
    | none =>
      expect ")"
      return []
    | some first =>
      match ← comprehension? inner ⟨false, first⟩ with
      | some e =>
        expect ")"
        return [e]
      | none => others first .all
where
  /-- Reads the arguments after the first one, up to the end. -/
  others (first : Expression) (allowed : Arguments) : Reader (List Expression) := do
    let all ← moreArguments inner (← get) allowed [first]
    expect ")"
    return all

/-- Reads one subscript: an item, or bounds with colons between them. -/
def subscript (between : Nat) : Reader Item := do
  if ← accept "*" then return ⟨true, compound [← inner (between + 2) .expression]⟩
  else if ← accept ":" then return ⟨false, compound (← bounds)⟩
  else if ← comesBefore ":=" then return ⟨false, ← inner between .named⟩
  else
    let first ← inner between .expression
    if ← accept ":" then return ⟨false, compound (first :: (← bounds))⟩
    else return ⟨false, first⟩
where
  /-- What follows the first colon. -/
  bounds : Reader (List Expression) := do
    let upper ← optional (inner between .expression)
    let step ← if ← accept ":" then optional (inner (between + 1) .expression) else pure none
    return upper.toList ++ step.toList

/-- Reads the subscripts after an opening bracket.  Several make a tuple. -/
def subscripts : Reader Expression := do
  let first ← subscript inner 3
  let isTuple := (← comes ",") || first.starred
  let rest ← moreItems (subscript inner 6)
  expect "]"
  return if isTuple then compound ((first :: rest).map Item.expression) else first.expression

/-- Reads an attribute, a call or a subscript of an expression. -/
def trailer (e : Expression) : Reader (Option Expression) := do
  if ← accept "." then
    if ← acceptIdentifier then return some { compound [e] with assignable := true } else fail
  else if ← accept "(" then
    return some (compound (e :: (← arguments inner)))
  else if ← accept "[" then
    return some { compound [e, ← subscripts inner] with assignable := true }
  else return none

/-- Reads what is done to an expression, with no more steps than tokens `left`. -/
def trailers (left : List Token) (e : Expression) : Reader Expression := do
  match left with
  | [] => return e
  | _ :: left =>
    match ← trailer inner e with
    | some e => trailers left e
    | none => return e

def primary : Reader Expression := do
  let e ← inner 1 .atom
  trailers inner (← get) e

end OrderedJobs.Expression.Rule
