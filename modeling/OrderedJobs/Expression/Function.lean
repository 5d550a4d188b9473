import OrderedJobs.Expression.Phrase

/-! # Choices and functions

The loosest expressions.  The parameters of a function are first those given by position, of which
one without a default follows none with one, then those given by name. -/

namespace OrderedJobs.Expression.Rule

open Reader

variable (inner : Inner)

/-- Where in the parameters of a function reading is. -/
inductive Parameters where
  /-- Among those given by position: whether there is one, whether one has a default, and whether
  the mark between them was read. -/
  | positional (any defaulted divided : Bool)
  /-- Among those given by name: whether there is one, or a list before them. -/
  | named (any : Bool)
  | closed
deriving DecidableEq, Repr

/-- Parameters may end here. -/
def Parameters.mayEnd : Parameters → Bool
  | named any => any
  | positional .. | closed => true

/-- Reads a default. -/
def default? : Reader (Option Expression) := do
  if ← accept "=" then return some (← inner 7 .expression) else return none

/-- Reads a parameter, with its default if it has one. -/
def parameter : Parameters → Reader (Parameters × Option Expression)
  | .positional any defaulted divided => do
    if ← accept "/" then
      if any && !divided then return (.positional any defaulted true, none) else fail
    else if ← accept "**" then
      if ← acceptIdentifier then return (.closed, none) else fail
    else if ← accept "*" then return (.named (← acceptIdentifier), none)
    else if ← acceptIdentifier then
      match ← default? inner with
      | some e => return (.positional true true divided, some e)
      | none => if defaulted then fail else return (.positional true false divided, none)
    else fail
  | .named any => do
    if ← accept "**" then
      if any && (← acceptIdentifier) then return (.closed, none) else fail
    else if ← acceptIdentifier then return (.named true, ← default? inner)
    else fail
  | .closed => fail

/-- Reads the parameters up to the colon after them, after defaults `taken`.  There are no more of
them than tokens `left`. -/
def parameters (left : List Token) (place : Parameters) (taken : List Expression) :
    Reader (List Expression) := do
  match left with
  | [] => fail
  | _ :: left =>
    if ← accept ":" then if place.mayEnd then return taken else fail
    else
      let (place, default) ← parameter inner place
      let taken := default.toList ++ taken
      if ← accept "," then parameters left place taken
      else if ← accept ":" then if place.mayEnd then return taken else fail
      else fail

/-- Reads what follows the word "lambda". -/
def function : Reader Expression := do
  let defaults ← parameters inner (← get) (.positional false false false) []
  return compound [compound defaults, ← inner 1 .expression]

/-- Reads a choice between two expressions, or a function. -/
def choice (again : Nat) : Reader Expression := do
  if ← accept "lambda" then function inner
  else
    let first ← inner again .disjunction
    if ← accept "if" then
      let condition ← inner again .disjunction
      expect "else"
      return compound [first, condition, ← inner 0 .expression]
    else return first

end OrderedJobs.Expression.Rule
