import OrderedJobs.Expression.Reading
import OrderedJobs.Text.Utf8

/-! # Literals

The value of a flag is the value of the expression that its text spells, and the text itself if it
spells none, or one whose value does not show. -/

namespace OrderedJobs.Literal

/-- The value that a flag is given, unless reading it breaks off.  No expression has a null
character in its text. -/
def read (b : Bytes) : Except Expression.Fault Config.Value :=
  let text := Utf8.decodeLenient b
  if !Utf8.isWellFormed b then .ok .illFormed
  else if b.contains 0 then .ok (.text text)
  else
    match Expression.ofText text.toList >>= Expression.value with
    | .ok v => .ok v
    | .error .unreadable | .error .garbled => .ok (.text text)
    | .error (.fault f) => .error f

end OrderedJobs.Literal
