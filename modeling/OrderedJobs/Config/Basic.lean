import OrderedJobs.Board
import OrderedJobs.Config.Value
import OrderedJobs.Text.Quoted

/-! # Configurations

A configuration is made from named values.  First every value is read by itself; then, if all of
them are acceptable, they are checked against each other.  So the faults of a configuration are
either those of its values, in the order of the fields, or one that joins several. -/

namespace OrderedJobs

structure Config where
  jobs : Int
  ring : Option Int
  quiet : Bool
  progress : Option Bool
  leading : Command
deriving DecidableEq, Repr

namespace Config

/-- The greatest number of jobs, and of ring slots. -/
def maxJobs : Int := 9999

/-- The values a configuration is made from; a missing one takes its default. -/
structure Fields where
  jobs : Option Value := none
  ring : Option Value := none
  quiet : Option Value := none
  progress : Option Value := none
  leading : Option Value := none

/-- Why values make no configuration. -/
inductive Fault where
  | jobs (fault : NumberFault)
  | ring (fault : NumberFault)
  | quiet (fault : TruthFault)
  | progress (fault : TruthFault)
  | leadingNoList
  | leadingNoText (position : Nat)
  | ringTooSmall (ring jobs : Int)
  | tooManyLeading (count : Nat)
  | leadingTooLong
deriving DecidableEq, Repr

/-- The complaint about an integer of more digits than are shown. -/
def tooLongToShow : String :=
  s!"Exceeds the limit ({Numeral.maxDigits} digits) for integer string conversion; " ++
  "use sys.set_int_max_str_digits() to increase the limit"

/-- The advice for a fault. -/
def Fault.describe : Fault → String
  | jobs _ => s!"bad argument to -j. must be between 1 and {maxJobs}."
  | ring _ => s!"bad argument to -r. must be an integer between the -j value and {maxJobs}."
  | quiet fault | progress fault => fault.message
  | leadingNoList => "Input should be a valid list"
  | leadingNoText _ => "Input should be a valid string"
  | ringTooSmall slots limit =>
      "Value error, " ++
      if Nat.pow 10 Numeral.maxDigits ≤ slots.natAbs then tooLongToShow
      else s!"ring capacity {slots} must not be smaller than the concurrency limit {limit}"
  | tooManyLeading count =>
      s!"Value error, too many prefix arguments: {count} > {Line.maxArguments}"
  | leadingTooLong => s!"Value error, prefix arguments are longer than {Line.maxLength} bytes"

/-- The advice for several faults. -/
def describe (faults : List Fault) : String := " ".intercalate (faults.map Fault.describe)

/-! ### Single fields -/

/-- The number of jobs when none is asked for: twice the number of processors. -/
def defaultJobs (processors : Option Int) : Int :=
  match processors with
  | none | some 0 => 2
  | some n => 2 * n

/-- Reads a number of at most `maxJobs`, and at least `least` if there is such a bound. -/
def readNumber (least : Option Int) (v : Value) : Except NumberFault Int :=
  match v.toNumber with
  | .error fault => .error fault
  | .ok n =>
    if least.any (n < ·) then .error .tooSmall
    else if maxJobs < n then .error .tooLarge
    else .ok n

def readJobs (processors : Option Int) : Option Value → Except NumberFault Int
  | none => .ok (defaultJobs processors)
  | some v => readNumber (some 1) v

def readRing : Option Value → Except NumberFault (Option Int)
  | none | some .null => .ok none
  | some v => (readNumber none v).map some

def readQuiet : Option Value → Except TruthFault Bool
  | none => .ok false
  | some v => v.toTruth

def readProgress : Option Value → Except TruthFault (Option Bool)
  | none | some .null => .ok none
  | some v => v.toTruth.map some

/-- The arguments in a list of values, or the positions of those that are none. -/
def readArguments (position : Nat) : List Value → Except (List Fault) Command
  | [] => .ok []
  | .bytes b :: rest => (readArguments (position + 1) rest).map (b :: ·)
  | _ :: rest =>
    match readArguments (position + 1) rest with
    | .ok _ => .error [.leadingNoText position]
    | .error faults => .error (.leadingNoText position :: faults)

def readLeading : Option Value → Except (List Fault) Command
  | none => .ok []
  | some (.list vs) => readArguments 0 vs
  | some _ => .error [.leadingNoList]

/-! ### All of them -/

/-- Checks acceptable values against each other. -/
def check (c : Config) : Except Fault Config :=
  match c.ring with
  | some ring => if ring < c.jobs then .error (.ringTooSmall ring c.jobs) else checkLeading c
  | none => checkLeading c
where
  checkLeading (c : Config) : Except Fault Config :=
    if Line.maxArguments < c.leading.length then .error (.tooManyLeading c.leading.length)
    else if Line.maxLength < c.leading.flatten.length then .error .leadingTooLong
    else .ok c

/-- The faults of a single field. -/
def faultsOf {ε α : Type} (fault : ε → List Fault) : Except ε α → List Fault
  | .error e => fault e
  | .ok _ => []

/-- Makes a configuration on a machine with a number of processors, if that is known. -/
def ofFields (processors : Option Int) (f : Fields) : Except (List Fault) Config :=
  match readJobs processors f.jobs, readRing f.ring, readQuiet f.quiet,
    readProgress f.progress, readLeading f.leading with
  | .ok jobs, .ok ring, .ok quiet, .ok progress, .ok leading =>
    match check ⟨jobs, ring, quiet, progress, leading⟩ with
    | .ok c => .ok c
    | .error fault => .error [fault]
  | jobs, ring, quiet, progress, leading =>
    .error <| faultsOf (fun e => [.jobs e]) jobs ++ faultsOf (fun e => [.ring e]) ring ++
      faultsOf (fun e => [.quiet e]) quiet ++ faultsOf (fun e => [.progress e]) progress ++
      faultsOf id leading

/-- How many launched jobs may await their turn: as many as may run, unless asked otherwise. -/
def capacity (c : Config) : Int := c.ring.getD c.jobs

/-- The limits that a configuration sets. -/
def limits (c : Config) : Except Failure Limits := Limits.ofInts c.jobs c.capacity

/-- Whether notes are shown: never in a quiet run, and otherwise as asked, or if the output is a
terminal. -/
def showsProgress (c : Config) (terminal : Bool) : Bool :=
  if c.quiet then false else c.progress.getD terminal

/-- A configuration as a text. -/
def toText (c : Config) : String :=
  "RunnerConfig(jobs=" ++ toString c.jobs ++
  ", ring=" ++ c.ring.elim "None" toString ++
  ", quiet=" ++ flagText c.quiet ++
  ", progress=" ++ c.progress.elim "None" flagText ++
  ", prefix=[" ++ ", ".intercalate (c.leading.map Quoted.quote) ++ "])"

end Config

end OrderedJobs
