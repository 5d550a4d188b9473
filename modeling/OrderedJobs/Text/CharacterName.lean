/-! # Character names

The names of the characters that can stand in a written integer: digits, signs, the point, the
underscore and the blanks, by the Unicode Character Database.  Blanks that are controls have no name
of their own and are known by their aliases.  No other name is known. -/

namespace OrderedJobs.CharacterName

/-- Names in upper case, with the character that each belongs to. -/
def table : List (String × Char) := [
  ("DIGIT ZERO", '0'), ("DIGIT ONE", '1'), ("DIGIT TWO", '2'), ("DIGIT THREE", '3'),
  ("DIGIT FOUR", '4'), ("DIGIT FIVE", '5'), ("DIGIT SIX", '6'), ("DIGIT SEVEN", '7'),
  ("DIGIT EIGHT", '8'), ("DIGIT NINE", '9'), ("PLUS SIGN", '+'), ("HYPHEN-MINUS", '-'),
  ("FULL STOP", '.'), ("LOW LINE", '_'),
  ("CHARACTER TABULATION", '\t'), ("HORIZONTAL TABULATION", '\t'), ("HT", '\t'), ("TAB", '\t'),
  ("LINE FEED", '\n'), ("NEW LINE", '\n'), ("END OF LINE", '\n'), ("LF", '\n'), ("NL", '\n'),
  ("EOL", '\n'), ("LINE TABULATION", '\x0b'), ("VERTICAL TABULATION", '\x0b'), ("VT", '\x0b'),
  ("FORM FEED", '\x0c'), ("FF", '\x0c'), ("CARRIAGE RETURN", '\r'), ("CR", '\r'),
  ("SPACE", ' '), ("SP", ' '), ("NEXT LINE", '\u0085'), ("NEL", '\u0085'),
  ("NO-BREAK SPACE", '\u00a0'), ("NBSP", '\u00a0'), ("OGHAM SPACE MARK", '\u1680'),
  ("EN QUAD", '\u2000'), ("EM QUAD", '\u2001'), ("EN SPACE", '\u2002'), ("EM SPACE", '\u2003'),
  ("THREE-PER-EM SPACE", '\u2004'), ("FOUR-PER-EM SPACE", '\u2005'), ("SIX-PER-EM SPACE", '\u2006'),
  ("FIGURE SPACE", '\u2007'), ("PUNCTUATION SPACE", '\u2008'), ("THIN SPACE", '\u2009'),
  ("HAIR SPACE", '\u200a'), ("LINE SEPARATOR", '\u2028'), ("PARAGRAPH SEPARATOR", '\u2029'),
  ("NARROW NO-BREAK SPACE", '\u202f'), ("NNBSP", '\u202f'),
  ("MEDIUM MATHEMATICAL SPACE", '\u205f'), ("MMSP", '\u205f'), ("IDEOGRAPHIC SPACE", '\u3000')]

/-- The character of a name, whatever the case of its letters. -/
def character? (name : List Char) : Option Char :=
  table.lookup (String.ofList (name.map Char.toUpper))

end OrderedJobs.CharacterName
