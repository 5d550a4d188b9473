import OrderedJobs.Failure

/-! # Input lines and commands

An input line is one command: its words are the maximal runs without a space, with no quoting and
no escaping, and they are appended to the arguments that lead every command.  `Line.command` checks
a line and assembles the command; `Command.echo` writes a command out as a line again, so that an
uncoloured echo of words is read back as those words. -/

namespace OrderedJobs

/-- An argument vector. -/
abbrev Command := List Bytes

namespace Line

/-- The longest line, its terminator included. -/
def maxLength : Nat := 99999

/-- The most arguments that a command may have. -/
def maxArguments : Nat := 999

/-- Puts one byte in front of a text read from the right: `word` is the word this byte would extend,
empty before a space or the end, and `words` are the complete ones after it. -/
def wordStep (b : UInt8) : Bytes × List Bytes → Bytes × List Bytes
  | (word, words) =>
    if b = Bytes.space then ([], if word.isEmpty then words else word :: words)
    else (b :: word, words)

/-- The words of a text: its maximal non-empty runs without a space. -/
def words (text : Bytes) : List Bytes :=
  let (word, rest) := text.foldr wordStep ([], [])
  if word.isEmpty then rest else word :: rest

/-- The command on a line, led by `leading`, or what is wrong with the line. -/
def command (leading : Command) (line : Bytes) : Except LineFault Command :=
  if !line.endsLine then
    .error (if maxLength ≤ line.length then .tooLong else .missingNewline)
  else
    let args := words line.dropLast
    if maxArguments < leading.length + args.length then .error .tooManyArguments
    else .ok (leading ++ args)

/-! ### Words, one byte at a time -/

@[simp] theorem words_nil : words [] = [] := rfl

theorem words_space_cons (text : Bytes) : words (Bytes.space :: text) = words text := by
  simp only [words, List.foldr_cons, wordStep, if_pos]
  split <;> simp_all

end Line

namespace Command

/-- The escape sequences that switch to yellow and back. -/
def yellow : Bytes := [0x1b, 0x5b, 0x33, 0x33, 0x6d]
def reset : Bytes := [0x1b, 0x5b, 0x30, 0x6d]

/-- The line that announces a command: its words, in yellow if `color`. -/
def echo (color : Bool) (c : Command) : Bytes :=
  let line := Bytes.joinWords c
  if color then yellow ++ line ++ [Bytes.space] ++ reset ++ [Bytes.newline]
  else line ++ [Bytes.newline]

end Command

end OrderedJobs
