import Mathlib.Data.List.Induction
import OrderedJobs.Proofs.FlagGrammar
import OrderedJobs.Proofs.NumberFlags
import OrderedJobs.Proofs.Reporting

/-! # Command lines

How a whole command line is answered, told by the way it is spelled (`Invocation.Answered`): what
comes first is the level of the journal, then a flag that lacks its value, the help flag, and a
value that cannot be made; only then is a configuration asked for.  With what follows from there,
every command line is answered with an exit code, but for three kinds of escapes
(`Invocation.answer_exits`).

When the numbers are given by numerals, the answer is a run on just these, or a refusal, and the
bounds of the usage decide (`Invocation.answer_of_numerals`). -/

namespace OrderedJobs

/-! ### The flag that counts -/

namespace Flag

variable {s : Setting} {flags before after : List Flag} {value : Bytes}

/-- What the last flag for a setting gives it, if there is one. -/
def Gives (s : Setting) (flags : List Flag) : Option Bytes → Prop
  | none => ∀ value, setting s value ∉ flags
  | some value => ∃ before after, flags = before ++ setting s value :: after ∧
      ∀ value, setting s value ∉ after

theorem valueOf_concat (s : Setting) (flags : List Flag) (f : Flag) :
    valueOf s (flags ++ [f]) =
      match f with
      | setting s' value => if s' = s then some value else valueOf s flags
      | _ => valueOf s flags := by
  unfold valueOf
  rw [List.foldl_append]
  cases f <;> rfl

theorem valueOf_append (h : ∀ value, setting s value ∉ after) :
    valueOf s (before ++ after) = valueOf s before := by
  induction after using List.reverseRecOn with
  | nil => rw [List.append_nil]
  | append_singleton after f ih =>
      have hafter : ∀ value, setting s value ∉ after :=
        fun value hmem => h value (List.mem_append_left _ hmem)
      have hf : ∀ value, f ≠ setting s value := by
        rintro value rfl
        exact h value (List.mem_append_right _ List.mem_cons_self)
      rw [← List.append_assoc, valueOf_concat, ih hafter]
      cases f with
      | help | quiet => rfl
      | setting s' value =>
          refine if_neg ?_
          rintro rfl
          exact hf value rfl

theorem Gives.valueOf_eq {v : Option Bytes} (h : Gives s flags v) : valueOf s flags = v := by
  cases v with
  | none =>
      have hempty : valueOf s ([] ++ flags) = valueOf s [] := valueOf_append h
      exact hempty
  | some value =>
      obtain ⟨before, after, rfl, hafter⟩ := h
      rw [List.append_cons, valueOf_append hafter, valueOf_concat]
      exact if_pos rfl

/-- The last flag for a setting gives it the numeral of an integer with few enough digits; or there
is neither a flag nor a number. -/
structure GivesNumber (s : Setting) (flags : List Flag) (n : Option Int) : Prop where
  value : Gives s flags (n.map fun n => Bytes.ofString (toString n))
  short : ∀ m, n = some m → m.natAbs < Nat.pow 10 Numeral.maxDigits

end Flag

namespace Invocation

variable {i : Invocation} {flags : List Flag} {spelled : List (List Bytes)} {leading : Command}
  {jobs ring : Option Int} {a : Answer}

/-! ### Kinds of answers -/

/-- How an invocation is answered, told by the spelling of its arguments. -/
inductive Answered (i : Invocation) : Answer → Prop
  | unknownLevel (hlevel : Level.ofRequest? i.level = none) :
      i.Answered ⟨.error .unknownLevel, [], [], i.host⟩
  | dangling {arg : Bytes} (hlevel : Level.ofRequest? i.level ≠ none)
      (h : Flag.Dangling i.arguments arg) : i.Answered (i.refuse (Flag.missingValue arg))
  | help {flags : List Flag} {spelled : List (List Bytes)} {leading : Command}
      (hlevel : Level.ofRequest? i.level ≠ none)
      (hcut : Flag.Cut i.arguments flags spelled leading) (hhelp : .help ∈ flags) :
      i.Answered i.help
  | broken {flags : List Flag} {spelled : List (List Bytes)} {leading : Command}
      {fault : Expression.Fault} (hlevel : Level.ofRequest? i.level ≠ none)
      (hcut : Flag.Cut i.arguments flags spelled leading) (hhelp : .help ∉ flags)
      (hvalue : fields flags leading = .error fault) :
      i.Answered ⟨.error (.value fault), [], [], i.host⟩
  | asked {flags : List Flag} {spelled : List (List Bytes)} {leading : Command}
      {f : Config.Fields} (hlevel : Level.ofRequest? i.level ≠ none)
      (hcut : Flag.Cut i.arguments flags spelled leading) (hhelp : .help ∉ flags)
      (hvalue : fields flags leading = .ok f) : i.Answered (i.runFields f)

theorem answer_of_level (h : Level.ofRequest? i.level ≠ none) : i.answer =
    match Flag.split i.arguments with
    | .error flag => i.refuse (Flag.missingValue flag)
    | .ok (flags, leading) => i.runFlags flags leading := by
  unfold answer
  cases hlevel : Level.ofRequest? i.level with
  | none => exact absurd hlevel h
  | some level => rfl

theorem answer_of_cut (hlevel : Level.ofRequest? i.level ≠ none)
    (hcut : Flag.Cut i.arguments flags spelled leading) : i.answer = i.runFlags flags leading := by
  rw [answer_of_level hlevel, hcut.split_eq]

theorem answered_runFlags (hlevel : Level.ofRequest? i.level ≠ none)
    (hcut : Flag.Cut i.arguments flags spelled leading) :
    i.Answered (i.runFlags flags leading) := by
  unfold runFlags
  by_cases hhelp : .help ∈ flags
  · rw [if_pos (List.contains_iff_mem.2 hhelp)]
    exact .help hlevel hcut hhelp
  · rw [if_neg (mt List.contains_iff_mem.1 hhelp)]
    cases hvalue : fields flags leading with
    | error fault => exact .broken hlevel hcut hhelp hvalue
    | ok f => exact .asked hlevel hcut hhelp hvalue

/-- Every invocation has one kind of answer. -/
theorem answered_iff : i.Answered a ↔ i.answer = a := by
  constructor
  · intro h
    cases h with
    | unknownLevel hlevel => simp [answer, hlevel]
    | dangling hlevel h => rw [answer_of_level hlevel, h.split_eq]
    | help hlevel hcut hhelp => simp [answer_of_cut hlevel hcut, runFlags, hhelp]
    | broken hlevel hcut hhelp hvalue =>
        simp [answer_of_cut hlevel hcut, runFlags, hhelp, hvalue]
    | asked hlevel hcut hhelp hvalue =>
        simp [answer_of_cut hlevel hcut, runFlags, hhelp, hvalue]
  · rintro rfl
    by_cases hlevel : Level.ofRequest? i.level = none
    · rw [answer, hlevel]
      exact .unknownLevel hlevel
    rcases Flag.cut_or_dangling i.arguments with ⟨flags, spelled, leading, hcut⟩ | ⟨arg, h⟩
    · rw [answer_of_cut hlevel hcut]
      exact answered_runFlags hlevel hcut
    · rw [answer_of_level hlevel, h.split_eq]
      exact .dangling hlevel h

/-- How the flags are spelled does not show in the answer. -/
theorem answer_respelled {arguments : List Bytes} {spelled' : List (List Bytes)}
    (h : Flag.Cut i.arguments flags spelled leading)
    (k : Flag.Cut arguments flags spelled' leading) :
    ({ i with arguments } : Invocation).answer = i.answer := by
  by_cases hlevel : Level.ofRequest? i.level = none
  · simp [answer, hlevel]
  · rw [answer_of_cut hlevel h, answer_of_cut (i := { i with arguments }) hlevel k]
    rfl

/-! ### Exit codes -/

/-- A flag that counts is given a value that breaks off when it is read. -/
def Breaks (i : Invocation) (fault : Expression.Fault) : Prop :=
  Level.ofRequest? i.level ≠ none ∧ ∃ flags spelled leading,
    Flag.Cut i.arguments flags spelled leading ∧ .help ∉ flags ∧
      fields flags leading = .error fault

section found

variable {platform : Platform} {rounds : List (List Event)} {handler : Handler}
  {wakeup : Option Descriptor} {o : Holdings}
  (hhost : i.host = Host.found platform rounds handler wakeup o)
  (hprocessors : ∀ n, i.processors = some n → 0 ≤ n)

include hhost hprocessors

theorem Answered.exit_cases (h : i.Answered a) :
    (∃ code, a.exit = .ok code ∧ 0 ≤ code ∧ code ≤ 255) ∨
    (a.exit = .error .unknownLevel ∧ Level.ofRequest? i.level = none) ∨
    (∃ fault, a.exit = .error (.value fault) ∧ i.Breaks fault) ∨
    ∃ error, a.exit = .error (.failure (.notifier error)) ∧
      platform.faults.pipe.error? 0 = some error := by
  cases h with
  | unknownLevel hlevel => exact .inr (.inl ⟨rfl, hlevel⟩)
  | dangling | help => exact .inl ⟨_, rfl, by decide⟩
  | broken hlevel hcut hhelp hvalue =>
      exact .inr (.inr (.inl ⟨_, rfl, hlevel, _, _, _, hcut, hhelp, hvalue⟩))
  | @asked _ _ _ f =>
      obtain ⟨hescapes, hcodes⟩ := reported_runFields (f := f) hhost hprocessors
      cases hexit : (i.runFields f).exit with
      | ok code => exact .inl ⟨code, rfl, hcodes code hexit⟩
      | error x =>
          obtain ⟨error, hfault, rfl⟩ := hescapes x hexit
          exact .inr (.inr (.inr ⟨error, rfl, hfault⟩))

/-- A whole command line is answered with an exit code between 0 and 255, but in three cases: the
level of the journal is unknown, the value of a flag breaks off, or the pipe of the notifier cannot
be made. -/
theorem answer_exits :
    (∀ code, i.answer.exit = .ok code → 0 ≤ code ∧ code ≤ 255) ∧
    (i.answer.exit = .error .unknownLevel ↔ Level.ofRequest? i.level = none) ∧
    (∀ fault, i.answer.exit = .error (.value fault) ↔ i.Breaks fault) ∧
    ∀ e, i.answer.exit = .error (.failure e) →
      ∃ error, platform.faults.pipe.error? 0 = some error ∧ e = .notifier error := by
  have hcases := (answered_iff.2 rfl : i.Answered i.answer).exit_cases hhost hprocessors
  refine ⟨?_, ⟨?_, fun hlevel => ?_⟩, fun fault => ⟨?_, ?_⟩, ?_⟩
  · rintro code hcode
    simpa [hcode] using hcases
  · intro hexit
    simpa [hexit] using hcases
  · rw [answered_iff.1 (.unknownLevel hlevel)]
  · intro hexit
    simpa [hexit] using hcases
  · rintro ⟨hlevel, flags, spelled, leading, hcut, hhelp, hvalue⟩
    rw [answered_iff.1 (.broken hlevel hcut hhelp hvalue)]
  · intro e hexit
    simpa [hexit, and_comm, eq_comm] using hcases

end found

/-! ### Numbers -/

theorem setting?_eq {s : Setting} {n : Option Int} (h : Flag.GivesNumber s flags n) :
    setting? s flags = .ok (n.map .int) := by
  unfold setting?
  rw [h.value.valueOf_eq]
  cases n with
  | none => rfl
  | some n => simp only [Option.map_some, Literal.read_toString n (h.short n rfl)]

/-- What a command line asks for by the numbers, flags and leading arguments in it. -/
def request (jobs ring : Option Int) (flags : List Flag) (leading : Command) : Config.Request where
  jobs := jobs
  ring := ring.map some
  quiet := some (flags.contains .quiet)
  leading := some leading

theorem fields_eq (hjobs : Flag.GivesNumber .jobs flags jobs)
    (hring : Flag.GivesNumber .ring flags ring) :
    fields flags leading = .ok (request jobs ring flags leading).fields := by
  unfold fields
  rw [setting?_eq hjobs, setting?_eq hring]
  cases ring <;> rfl

/-- A command line that gives its numbers by numerals is answered with a run on just these, if they
are within the bounds of the usage, and otherwise refused. -/
theorem answer_of_numerals (processors : Option Nat) (jobs ring : Option Int)
    (hlevel : Level.ofRequest? i.level ≠ none) (hinteractive : i.interactive = false)
    (hprocessors : i.processors = processors.map Int.ofNat)
    (hcut : Flag.Cut i.arguments flags spelled leading) (hhelp : .help ∉ flags)
    (hjobs : Flag.GivesNumber .jobs flags jobs) (hring : Flag.GivesNumber .ring flags ring) :
    let q := request jobs ring flags leading
    let c := q.config processors
    (c.Within ∨ q.Boundless processors → i.answer = i.run c) ∧
    (¬ (c.Within ∨ q.Boundless processors) →
      ∃ faults, i.answer = i.refuse (Config.describe faults)) := by
  intro q c
  have hanswer : i.answer = i.runFields q.fields :=
    answered_iff.1 (.asked hlevel hcut hhelp (fields_eq hjobs hring))
  rw [hanswer, runFields_eq hinteractive, hprocessors, ← Config.bounds_iff_within]
  constructor
  · intro hbounds
    rw [(Config.ofFields_request_iff processors q).2 ⟨rfl, hbounds⟩]
  · intro hbounds
    cases hfields : Config.ofFields (processors.map Int.ofNat) q.fields with
    | error faults => exact ⟨faults, rfl⟩
    | ok c' => exact absurd ((Config.ofFields_request_iff processors q).1 hfields).2 hbounds

/-- Two jobs are asked for, and their commands begin with a word. -/
theorem answer_of_numerals_two_jobs :
    let i : Invocation := { arguments := [Bytes.ofString "-j2", Bytes.ofString "wc"], input := [] }
    i.answer = i.run ⟨2, none, false, none, [Bytes.ofString "wc"]⟩ := by
  intro i
  have hsplit : Flag.split i.arguments =
      .ok ([.setting .jobs (Bytes.ofString "2")], [Bytes.ofString "wc"]) := by decide +kernel
  obtain ⟨spelled, hcut⟩ := Flag.split_eq_ok_iff.1 hsplit
  have hpow : ∀ k, k ≠ 0 → 2 < Nat.pow 10 k :=
    fun k hk => Nat.lt_of_lt_of_le (by decide) (Nat.le_self_pow hk 10)
  have hjobs : Flag.GivesNumber .jobs [.setting .jobs (Bytes.ofString "2")] (some 2) := by
    refine ⟨⟨[], [], rfl, by simp⟩, fun m hm => ?_⟩
    cases hm
    exact hpow _ (by decide)
  have hring : Flag.GivesNumber .ring [.setting .jobs (Bytes.ofString "2")] none :=
    ⟨by simp [Flag.Gives], by simp⟩
  have hanswer := answer_of_numerals none (some 2) none (by decide) rfl rfl hcut (by decide)
    hjobs hring
  exact hanswer.1 (.inl ⟨by decide, by decide, (fun _ h => by cases h), by decide, by decide⟩)

end Invocation

end OrderedJobs
