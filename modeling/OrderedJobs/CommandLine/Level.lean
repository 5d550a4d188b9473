import OrderedJobs.Journal

/-! # The level of the journal

The level from which records are shown is named by a word, in any mix of cases. -/

namespace OrderedJobs.Level

/-- A letter in upper case.  Besides the ASCII letters, two letters have an ASCII capital: the
dotless i and the long s. -/
def capital (c : Char) : Char :=
  if c = 'ı' then 'I' else if c = 'ſ' then 'S' else c.toUpper

/-- The level that a word names.  The word for no level leaves the usual one. -/
def ofWord? (word : String) : Option Level :=
  [("DEBUG", debug), ("INFO", info), ("WARNING", warning), ("WARN", warning), ("ERROR", error),
    ("CRITICAL", critical), ("FATAL", critical), ("NOTSET", warning)].lookup
    (String.ofList (word.toList.map capital))

/-- The level asked for, if a word was given, and otherwise the usual one. -/
def ofRequest? : Option String → Option Level
  | none => some warning
  | some word => ofWord? word

end OrderedJobs.Level
