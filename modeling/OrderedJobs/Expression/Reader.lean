import OrderedJobs.Expression.Token

/-! # Reading tokens

A reader takes tokens from the front, or fails.  `Reader.optional` turns a failure into a missing
part, unless reading broke off for good, and `Reader.many` repeats a reader. -/

namespace OrderedJobs.Expression

abbrev Reader (α : Type) := StateT (List Token) (Except Trouble) α

namespace Reader

variable {α : Type}

def fail : Reader α := throw .unreadable

/-- The mark comes next. -/
def comes (text : String) : Reader Bool := fun ts =>
  match ts with
  | .mark next :: _ => .ok (next == text, ts)
  | _ => .ok (false, ts)

/-- Takes the mark, if it comes next.  A part that belongs to no expression is noticed here. -/
def accept (text : String) : Reader Bool := fun ts =>
  match ts with
  | .mark next :: rest => .ok (if next = text then (true, rest) else (false, ts))
  | .broken .garbled :: _ => .error .garbled
  | _ => .ok (false, ts)

/-- Takes the mark, which must come next. -/
def expect (text : String) : Reader Unit := do
  if ← accept text then return () else fail

/-- Takes the first of some marks that comes next. -/
def acceptOne (texts : List String) : Reader (Option String) := fun ts =>
  match ts with
  | .mark next :: rest => .ok (if texts.contains next then (some next, rest) else (none, ts))
  | _ => .ok (none, ts)

/-- An identifier and the mark come next. -/
def comesBefore (text : String) : Reader Bool := fun ts =>
  match ts with
  | .identifier _ :: .mark next :: _ => .ok (next == text, ts)
  | _ => .ok (false, ts)

/-- Takes an identifier that stands before the mark, and the mark. -/
def acceptBefore (text : String) : Reader Bool := fun ts =>
  match ts with
  | .identifier _ :: .mark next :: rest => .ok (if next = text then (true, rest) else (false, ts))
  | _ => .ok (false, ts)

/-- Takes an identifier, if one comes next. -/
def acceptIdentifier : Reader Bool := fun ts =>
  match ts with
  | .identifier _ :: rest => .ok (true, rest)
  | _ => .ok (false, ts)

/-- Reads a part that may be missing. -/
def optional (r : Reader α) : Reader (Option α) := fun ts =>
  match r ts with
  | .ok (a, rest) => .ok (some a, rest)
  | .error .unreadable => .ok (none, ts)
  | .error why => .error why

/-- Repeats a reader until it has nothing more.  Since every repetition takes a token, there are no
more of them than tokens. -/
def many (r : Reader (Option α)) : Reader (List α) := fun ts => go ts [] ts
where
  /-- `taken` is what was read before, in reverse. -/
  go (left : List Token) (taken : List α) (ts : List Token) :
      Except Trouble (List α × List Token) :=
    match left with
    | [] => .ok (taken.reverse, ts)
    | _ :: left =>
      match r ts with
      | .ok (some a, rest) => go left (a :: taken) rest
      | .ok (none, rest) => .ok (taken.reverse, rest)
      | .error why => .error why

/-- Reads more items, each after a comma; a comma may also end them. -/
def moreItems (item : Reader α) : Reader (List α) :=
  many do
    if ← accept "," then optional item else return none

end Reader

end OrderedJobs.Expression
