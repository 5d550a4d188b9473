import OrderedJobs.Line

/-! # Flags

The flags in front of a command line.  A flag asks for help, for quiet, or gives a number under one
of two names, each with a short and a long spelling; the value of a short one may follow at once,
after an equals sign, or as the next argument, that of a long one in the last two ways.  The flags
end at the first argument that is none, and what follows leads every command, whatever it looks
like.

`Flag.spell` is the normal form of a flag, and `Flag.split` reads flags off the arguments. -/

namespace OrderedJobs

/-- The numbers that flags give. -/
inductive Setting where
  | jobs
  | ring
deriving DecidableEq, Repr

namespace Setting

def name : Setting → String
  | jobs => "jobs"
  | ring => "ring"

/-- The two spellings of the flag for a setting. -/
def short : Setting → Bytes
  | jobs => Bytes.ofString "-j"
  | ring => Bytes.ofString "-r"

def long : Setting → Bytes
  | jobs => Bytes.ofString "--jobs"
  | ring => Bytes.ofString "--ring"

end Setting

inductive Flag where
  | help
  | quiet
  | setting (s : Setting) (value : Bytes)
deriving DecidableEq, Repr

namespace Flag

/-- The sign between a flag and its value. -/
def equals : UInt8 := 0x3d

/-- The normal form of a flag. -/
def spell : Flag → Bytes
  | help => Bytes.ofString "--help"
  | quiet => Bytes.ofString "--quiet"
  | setting s value => s.long ++ equals :: value

/-- Reads an argument as the short flag of a setting: with its value, or without one if it is
spelled alone. -/
def readShort (s : Setting) (arg : Bytes) : Option (Option Bytes) :=
  match s.short.isPrefixOf? arg with
  | none => none
  | some [] => some none
  | some (c :: value) => some (some (if c = equals then value else c :: value))

/-- Reads an argument as the long flag of a setting. -/
def readLong (s : Setting) (arg : Bytes) : Option (Option Bytes) :=
  match s.long.isPrefixOf? arg with
  | none => none
  | some [] => some none
  | some (c :: value) => if c = equals then some (some value) else none

/-- Reads an argument as a flag of some setting. -/
def readSetting (arg : Bytes) : Option (Setting × Option Bytes) :=
  ((readShort .jobs arg).or (readLong .jobs arg)).map (.jobs, ·) |>.or <|
    ((readShort .ring arg).or (readLong .ring arg)).map (.ring, ·)

def isHelp (arg : Bytes) : Bool := arg == Bytes.ofString "-h" || arg == Bytes.ofString "--help"

def isQuiet (arg : Bytes) : Bool := arg == Bytes.ofString "-q" || arg == Bytes.ofString "--quiet"

/-- Puts a flag in front of others. -/
def push (f : Flag) : List Flag × Command → List Flag × Command
  | (flags, leading) => (f :: flags, leading)

/-- Splits arguments into flags and what follows them.  It fails with a flag that lacks its
value. -/
def split : List Bytes → Except Bytes (List Flag × Command)
  | [] => .ok ([], [])
  | arg :: rest =>
    if isHelp arg then (split rest).map (push .help)
    else if isQuiet arg then (split rest).map (push .quiet)
    else
      match readSetting arg, rest with
      | none, rest => .ok ([], arg :: rest)
      | some (s, some value), rest => (split rest).map (push (.setting s value))
      | some _, [] => .error arg
      | some (s, none), value :: rest => (split rest).map (push (.setting s value))

/-- The complaint about a flag that lacks its value. -/
def missingValue (arg : Bytes) : String := "missing value for " ++ Utf8.decodeLenient arg

/-- The value given to a setting: the last one counts. -/
def valueOf (s : Setting) (flags : List Flag) : Option Bytes :=
  flags.foldl (fun found f =>
    match f with
    | setting s' value => if s' = s then some value else found
    | _ => found) none

end Flag

end OrderedJobs
