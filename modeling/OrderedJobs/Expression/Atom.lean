import OrderedJobs.Expression.Bracket

/-! # Atoms

An atom is a number, a word, quotations in a row, or an expression in brackets. -/

namespace OrderedJobs.Expression.Rule

open Reader

variable (inner : Inner)

/-- Reads quotations in a row.  Texts and byte strings do not mix. -/
def quotations : Reader Expression := do
  let parts ← many fun ts =>
    match ts with
    | .quotation octets content :: rest => .ok (some (octets, content, 0), rest)
    | .template height :: rest => .ok (some (false, [], height), rest)
    | ts => .ok (none, ts)
  let octets := parts.any (·.1)
  let content := parts.flatMap (·.2.1)
  let height := parts.foldl (fun h p => max h p.2.2) 0
  if octets && !parts.all (·.1) then fail
  else if 0 < height then return { compound [] with height }
  else if octets then
    return { form := .constant (.bytes (content.map fun c => UInt8.ofNat c.toNat)) }
  else return { form := .constant (.text (String.ofList content)) }

def atom : Reader Expression := fun ts =>
  match ts with
  | .number n :: rest => .ok ({ form := .number n false }, rest)
  | .constant v :: rest => .ok ({ form := .constant v }, rest)
  | .identifier text :: rest => .ok ({ form := .constant (.text text), assignable := true }, rest)
  | .quotation .. :: _ | .template _ :: _ => inner 1 .quotations ts
  | .mark "(" :: rest => parenthesized inner rest
  | .mark "[" :: rest => bracketed inner rest
  | .mark "\x7b" :: rest => braced inner rest
  | .broken why :: _ => .error why
  | _ => .error .unreadable

end OrderedJobs.Expression.Rule
