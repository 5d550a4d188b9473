import OrderedJobs.Config.Value
import OrderedJobs.Expression.Number

/-! # Expressions

The value of a flag is read as an expression.  What counts of an expression is its `Form`: a number,
a constant or a container of such has a value that shows in its text, and of every other expression
only its extent is known.  `Form.check` finds out whether the value can be made at all, and
`Expression.value` gives it.

Making a value may break off: a set and the keys of a dictionary hold lasting values only, an
integer that is added to an imaginary number must be of its size, and an expression must not be too
high. -/

namespace OrderedJobs

namespace Expression

/-- The containers that may change later on. -/
inductive Container where
  | list
  | set
  | dictionary
deriving DecidableEq, Repr

def Container.name : Container → String
  | list => "list"
  | set => "set"
  | dictionary => "dict"

/-- Why making a value broke off. -/
inductive Fault where
  /-- A container that may change stands where only lasting values may. -/
  | unhashable (c : Container)
  /-- An integer is too large to be joined with an imaginary number. -/
  | numberTooLarge
  /-- The expression is too high. -/
  | tooHigh
  /-- Too many phrases of the expression lie within each other. -/
  | outOfRoom
deriving DecidableEq, Repr

def Fault.message : Fault → String
  | unhashable c => "unhashable type: '" ++ c.name ++ "'"
  | numberTooLarge => "int too large to convert to float"
  | tooHigh => "maximum recursion depth exceeded during ast construction"
  | outOfRoom => ""

/-- Why a text has no value as an expression. -/
inductive Trouble where
  /-- It spells no expression, or one whose value does not show. -/
  | unreadable
  /-- It has a part that belongs to no expression. -/
  | garbled
  | fault (f : Fault)
deriving DecidableEq, Repr

/-- What an expression is, as far as its value shows in its text. -/
inductive Form where
  /-- A number; `signed` tells whether there is a sign in front. -/
  | number (n : Number) (signed : Bool)
  /-- A whole and an imaginary number, joined by a sign. -/
  | sum (whole : Number)
  /-- A word or quotations; a bare word stands for its own text. -/
  | constant (v : Config.Value)
  | tuple (items : List Form)
  | list (items : List Form)
  | set (items : List Form)
  /-- The entries are keys and values in turn. -/
  | dictionary (entries : List Form)
  | other

/-! ### Lasting values -/

mutual
/-- The first container in a value that may change. -/
def Form.changing? : Form → Option Container
  | .tuple items => firstChanging? items
  | .list _ => some .list
  | .set _ => some .set
  | .dictionary _ => some .dictionary
  | _ => none

def firstChanging? : List Form → Option Container
  | [] => none
  | f :: rest => f.changing?.or (firstChanging? rest)
end

/-- Only lasting values may be members of a set or keys. -/
def Form.checkLasting (f : Form) : Except Trouble Unit :=
  match f.changing? with
  | none => .ok ()
  | some c => .error (.fault (.unhashable c))

/-! ### Values -/

mutual
/-- Checks that the value of an expression can be made, part by part from left to right. -/
def Form.check : Form → Except Trouble Unit
  | .number _ _ | .constant _ => .ok ()
  | .sum whole => if whole.isTooLarge then .error (.fault .numberTooLarge) else .ok ()
  | .tuple items | .list items => checkItems items
  | .set items => checkMembers items
  | .dictionary entries => checkEntries entries
  | .other => .error .unreadable

def checkItems : List Form → Except Trouble Unit
  | [] => .ok ()
  | f :: rest => do
    f.check
    checkItems rest

def checkMembers : List Form → Except Trouble Unit
  | [] => .ok ()
  | f :: rest => do
    f.check
    f.checkLasting
    checkMembers rest

def checkEntries : List Form → Except Trouble Unit
  | key :: value :: rest => do
    key.check
    value.check
    key.checkLasting
    checkEntries rest
  | _ => .ok ()
end

/-- The value of an expression, as far as it matters: of containers and of imaginary numbers only
that they are no plain values. -/
def Form.value : Form → Config.Value
  | .number (.integer n) _ => .int n
  | .number (.real d) _ => .real d
  | .constant v => v
  | _ => .object

end Expression

/-- An expression: its form, the height of its tree, and whether it may be assigned to. -/
structure Expression where
  form : Expression.Form
  height : Nat := 1
  assignable : Bool := false

namespace Expression

/-- The greatest height of an expression. -/
def maxHeight : Nat := 2939

/-- The value of an expression.  A sum at the top has none. -/
def value (e : Expression) : Except Trouble Config.Value :=
  if maxHeight < e.height then .error (.fault .tooHigh)
  else
    match e.form with
    | .sum _ => .error .unreadable
    | form => form.check.map fun _ => form.value

/-! ### Making expressions of parts -/

def heightOf (parts : List Expression) : Nat := parts.foldl (fun h e => max h e.height) 0

/-- An expression over some parts, whose value does not show. -/
def compound (parts : List Expression) : Expression := ⟨.other, heightOf parts + 1, false⟩

/-- A container of some items. -/
def container (form : List Form → Form) (items : List Expression) : Expression :=
  ⟨form (items.map Expression.form), heightOf items + 1, false⟩

/-- A tuple or a list of some items, which may be assigned to if they all may. -/
def sequence (form : List Form → Form) (items : List Expression) : Expression :=
  { container form items with assignable := items.all Expression.assignable }

/-- An expression after a sign.  A number takes one sign. -/
def signed (negative : Bool) (e : Expression) : Expression :=
  match e.form with
  | .number n false => ⟨.number (if negative then n.negate else n) true, e.height + 1, false⟩
  | _ => compound [e]

/-- Two expressions joined by a sign. -/
def added (left right : Expression) : Expression :=
  match left.form, right.form with
  | .number .imaginary _, _ => compound [left, right]
  | .number whole _, .number .imaginary false => { compound [left, right] with form := .sum whole }
  | _, _ => compound [left, right]

end Expression

end OrderedJobs
