/-! # The layout of an expression

The text of an expression is made of lines.  The line of the expression starts at the margin, and
only blank lines and comments stand before and after it.  A backslash at the end of a line joins it
with the next one, and within brackets the ends of lines do not count. -/

namespace OrderedJobs.Expression

/-- The text with a line feed at the end of every line, however the line was ended. -/
def unifyLines : List Char → List Char
  | [] => []
  | '\r' :: '\n' :: rest => '\n' :: unifyLines rest
  | c :: rest => (if c = '\r' then '\n' else c) :: unifyLines rest

def isSpacing (c : Char) : Bool := c == ' ' || c == '\t' || c == '\x0c'

/-- Skips blank lines and comments, up to the end or to a line that holds something else.  That line
must start at the margin, and so must the end. -/
def skipBlankLines : List Char → Option (List Char) := go false false false
where
  /-- `comment` tells whether a comment is being skipped, `indented` whether there were blanks on
  this line, and `joined` whether there were on the lines that this one is joined with.  A form feed
  goes back to the margin. -/
  go (comment indented joined : Bool) : List Char → Option (List Char)
    | [] => if !comment && (indented || joined) then none else some []
    | c :: rest =>
      if c = '\n' then go false false false rest
      else if comment || c == '#' then go true indented joined rest
      else if c = '\x0c' then go false false joined rest
      else if isSpacing c then go false true joined rest
      else if c = '\\' then
        match rest with
        | '\n' :: rest => if rest.isEmpty then none else go false indented (joined || indented) rest
        | _ => none
      else if indented || joined then none
      else some (c :: rest)

/-- Skips what may stand between two parts of an expression: blanks and the joints of lines, and,
within brackets, the ends of lines and comments. -/
def skipGap (nested : Bool) : List Char → List Char := go false
where
  /-- `comment` tells whether a comment is being skipped. -/
  go (comment : Bool) : List Char → List Char
    | [] => []
    | c :: rest =>
      if comment then go (c != '\n') rest
      else if isSpacing c then go false rest
      else if nested && c == '\n' then go false rest
      else if nested && c == '#' then go true rest
      else if c = '\\' then
        match rest with
        | '\n' :: rest => if rest.isEmpty then ['\\', '\n'] else go false rest
        | rest => '\\' :: rest
      else c :: rest

end OrderedJobs.Expression
