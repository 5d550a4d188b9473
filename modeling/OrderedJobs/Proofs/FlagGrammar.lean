import Mathlib.Data.List.Forall2
import OrderedJobs.CommandLine.Flags

/-! # The grammar of flags

How flags may be spelled (`Flag.Spelling`), and that splitting a command line finds just these
spellings.  A command line is cut into the spellings of flags and the arguments that lead every
command, which begin with none (`Flag.Cut`); there is at most one such cut, and `Flag.split` finds
it, unless the last argument is a flag that lacks its value (`Flag.split_grammar`).

An argument at the place of a flag is read by itself first (`Flag.lead`): it is a whole flag, or a
setting whose value comes next, or none.  That the spellings do not overlap is said of this reading
once, in `Flag.lead_eq_flag_iff` and `Flag.lead_eq_value_iff`. -/

namespace OrderedJobs

/-! ### Stems

The spellings of settings begin with four stems, of which none is the beginning of another. -/

namespace Setting

variable {s t : Setting} {a b : Bytes}

theorem short_append_inj (h : s.short ++ a = t.short ++ b) : s = t ∧ a = b := by
  cases s <;> cases t <;> simp_all [short, Bytes.ofString, String.utf8EncodeChar]

theorem long_append_inj (h : s.long ++ a = t.long ++ b) : s = t ∧ a = b := by
  cases s <;> cases t <;> simp_all [long, Bytes.ofString, String.utf8EncodeChar]

theorem short_append_ne_long_append : s.short ++ a ≠ t.long ++ b := by
  cases s <;> cases t <;> simp [short, long, Bytes.ofString, String.utf8EncodeChar]

end Setting

namespace Flag

variable {s : Setting} {arg value : Bytes} {v : Option Bytes} {f : Flag}

theorem isHelp_iff : isHelp arg = true ↔
    arg = Bytes.ofString "-h" ∨ arg = Bytes.ofString "--help" := by
  simp [isHelp]

theorem isQuiet_iff :
    isQuiet arg = true ↔ arg = Bytes.ofString "-q" ∨ arg = Bytes.ofString "--quiet" := by
  simp [isQuiet]

/-! ### Reading one argument -/

/-- How the short flag of a setting is read. -/
theorem readShort_append (s : Setting) (rest : Bytes) : readShort s (s.short ++ rest) = some
    (match rest with
      | [] => none
      | c :: value => some (if c = equals then value else c :: value)) := by
  unfold readShort
  rw [List.isPrefixOf?_eq_some_iff_append_eq.2 rfl]
  cases rest <;> rfl

theorem readShort_eq_none (h : ∀ rest, arg ≠ s.short ++ rest) : readShort s arg = none := by
  unfold readShort
  cases hp : s.short.isPrefixOf? arg with
  | none => rfl
  | some rest => exact absurd (List.isPrefixOf?_eq_some_iff_append_eq.1 hp).symm (h rest)

theorem readLong_append (s : Setting) (rest : Bytes) : readLong s (s.long ++ rest) =
    match rest with
    | [] => some none
    | c :: value => if c = equals then some (some value) else none := by
  unfold readLong
  rw [List.isPrefixOf?_eq_some_iff_append_eq.2 rfl]
  cases rest <;> rfl

theorem readLong_eq_none (h : ∀ rest, arg ≠ s.long ++ rest) : readLong s arg = none := by
  unfold readLong
  cases hp : s.long.isPrefixOf? arg with
  | none => rfl
  | some rest => exact absurd (List.isPrefixOf?_eq_some_iff_append_eq.1 hp).symm (h rest)

theorem readSetting_short (s : Setting) (rest : Bytes) :
    readSetting (s.short ++ rest) = (readShort s (s.short ++ rest)).map (s, ·) := by
  have hlong : ∀ t : Setting, readLong t (s.short ++ rest) = none :=
    fun t => readLong_eq_none fun _ => Setting.short_append_ne_long_append
  unfold readSetting
  cases s with
  | jobs =>
      have hring : readShort .ring (Setting.jobs.short ++ rest) = none :=
        readShort_eq_none fun _ h => by cases (Setting.short_append_inj h).1
      simp [hlong, hring]
  | ring =>
      have hjobs : readShort .jobs (Setting.ring.short ++ rest) = none :=
        readShort_eq_none fun _ h => by cases (Setting.short_append_inj h).1
      simp [hlong, hjobs]

theorem readSetting_long (s : Setting) (rest : Bytes) :
    readSetting (s.long ++ rest) = (readLong s (s.long ++ rest)).map (s, ·) := by
  have hshort : ∀ t : Setting, readShort t (s.long ++ rest) = none :=
    fun t => readShort_eq_none fun _ h => Setting.short_append_ne_long_append h.symm
  unfold readSetting
  cases s with
  | jobs =>
      have hring : readLong .ring (Setting.jobs.long ++ rest) = none :=
        readLong_eq_none fun _ h => by cases (Setting.long_append_inj h).1
      simp [hshort, hring]
  | ring =>
      have hjobs : readLong .jobs (Setting.ring.long ++ rest) = none :=
        readLong_eq_none fun _ h => by cases (Setting.long_append_inj h).1
      simp [hshort, hjobs]

/-- Only an argument that begins with a stem is read as a setting. -/
theorem stem_of_readSetting (h : readSetting arg ≠ none) :
    ∃ s rest, arg = Setting.short s ++ rest ∨ arg = Setting.long s ++ rest := by
  by_contra hno
  push Not at hno
  apply h
  unfold readSetting
  rw [readShort_eq_none fun rest => (hno .jobs rest).1,
    readLong_eq_none fun rest => (hno .jobs rest).2,
    readShort_eq_none fun rest => (hno .ring rest).1,
    readLong_eq_none fun rest => (hno .ring rest).2]
  rfl

/-- What an argument is at the place of a flag: a whole flag, or a setting whose value comes
next. -/
inductive Lead where
  | flag (f : Flag)
  | value (s : Setting)

/-- Reads an argument at the place of a flag. -/
def lead (arg : Bytes) : Option Lead :=
  if isHelp arg then some (.flag .help)
  else if isQuiet arg then some (.flag .quiet)
  else (readSetting arg).map fun (s, v) => v.elim (.value s) fun value => .flag (.setting s value)

theorem lead_of_stem (h : ∃ rest, arg = s.short ++ rest ∨ arg = s.long ++ rest) :
    lead arg = (readSetting arg).map fun (s, v) =>
      v.elim (.value s) fun value => .flag (.setting s value) := by
  have hplain : isHelp arg = false ∧ isQuiet arg = false := by
    obtain ⟨rest, rfl | rfl⟩ := h <;> cases s <;>
      simp [isHelp, isQuiet, Setting.short, Setting.long, Bytes.ofString, String.utf8EncodeChar]
  unfold lead
  rw [hplain.1, hplain.2]
  rfl

theorem lead_short (s : Setting) : lead s.short = some (.value s) := by
  rw [lead_of_stem ⟨[], .inl (List.append_nil _).symm⟩, ← List.append_nil s.short,
    readSetting_short, readShort_append]
  rfl

theorem lead_long (s : Setting) : lead s.long = some (.value s) := by
  rw [lead_of_stem ⟨[], .inr (List.append_nil _).symm⟩, ← List.append_nil s.long, readSetting_long,
    readLong_append]
  rfl

theorem lead_short_cons (s : Setting) (c : UInt8) (value : Bytes) :
    lead (s.short ++ c :: value) =
      some (.flag (.setting s (if c = equals then value else c :: value))) := by
  rw [lead_of_stem ⟨_, .inl rfl⟩, readSetting_short, readShort_append]
  rfl

theorem lead_long_cons (s : Setting) (c : UInt8) (value : Bytes) :
    lead (s.long ++ c :: value) =
      if c = equals then some (.flag (.setting s value)) else none := by
  rw [lead_of_stem ⟨_, .inr rfl⟩, readSetting_long, readLong_append]
  dsimp only
  split <;> rfl

/-- How a command line is split, argument by argument. -/
theorem split_cons (arg : Bytes) (rest : List Bytes) : split (arg :: rest) =
    match lead arg with
    | none => .ok ([], arg :: rest)
    | some (.flag f) => (split rest).map (push f)
    | some (.value s) =>
      match rest with
      | [] => .error arg
      | value :: rest => (split rest).map (push (.setting s value)) := by
  rw [split.eq_def]
  unfold lead
  dsimp only
  by_cases hhelp : isHelp arg = true
  · rw [if_pos hhelp, if_pos hhelp]
  by_cases hquiet : isQuiet arg = true
  · rw [if_neg hhelp, if_neg hhelp, if_pos hquiet, if_pos hquiet]
  rw [if_neg hhelp, if_neg hhelp, if_neg hquiet, if_neg hquiet]
  rcases readSetting arg with _ | ⟨s, _ | value⟩
  · rfl
  · cases rest <;> rfl
  · rfl

/-! ### Spellings -/

/-- The ways to spell a flag, in one argument or in two. -/
inductive Spelling : Flag → List Bytes → Prop
  | shortHelp : Spelling .help [Bytes.ofString "-h"]
  | longHelp : Spelling .help [Bytes.ofString "--help"]
  | shortQuiet : Spelling .quiet [Bytes.ofString "-q"]
  | longQuiet : Spelling .quiet [Bytes.ofString "--quiet"]
  | attached (s : Setting) (c : UInt8) (value : Bytes) (hc : c ≠ equals) :
      Spelling (.setting s (c :: value)) [s.short ++ c :: value]
  | shortEquals (s : Setting) (value : Bytes) :
      Spelling (.setting s value) [s.short ++ equals :: value]
  | longEquals (s : Setting) (value : Bytes) :
      Spelling (.setting s value) [s.long ++ equals :: value]
  | shortApart (s : Setting) (value : Bytes) : Spelling (.setting s value) [s.short, value]
  | longApart (s : Setting) (value : Bytes) : Spelling (.setting s value) [s.long, value]

/-- A flag of a setting without its value. -/
def Bare (s : Setting) (arg : Bytes) : Prop := arg = s.short ∨ arg = s.long

/-- The argument is the spelling of a flag, or the first half of one. -/
def Begins (arg : Bytes) : Prop := ∃ f more, Spelling f (arg :: more)

theorem lead_cases (arg : Bytes) : lead arg = none ∨
    (∃ f, lead arg = some (.flag f) ∧ Spelling f [arg]) ∨
    ∃ s, lead arg = some (.value s) ∧ Bare s arg := by
  by_cases hhelp : isHelp arg = true
  · right; left
    refine ⟨.help, if_pos hhelp, ?_⟩
    rcases isHelp_iff.1 hhelp with rfl | rfl
    · exact .shortHelp
    · exact .longHelp
  by_cases hquiet : isQuiet arg = true
  · right; left
    refine ⟨.quiet, (if_neg hhelp).trans (if_pos hquiet), ?_⟩
    rcases isQuiet_iff.1 hquiet with rfl | rfl
    · exact .shortQuiet
    · exact .longQuiet
  by_cases hsetting : readSetting arg = none
  · left
    unfold lead
    rw [if_neg hhelp, if_neg hquiet, hsetting]
    rfl
  obtain ⟨s, rest, rfl | rfl⟩ := stem_of_readSetting hsetting
  · right
    rcases rest with _ | ⟨c, value⟩
    · rw [List.append_nil]
      exact .inr ⟨s, lead_short s, .inl rfl⟩
    · left
      refine ⟨_, lead_short_cons s c value, ?_⟩
      by_cases hc : c = equals
      · rw [if_pos hc, hc]
        exact .shortEquals s value
      · rw [if_neg hc]
        exact .attached s c value hc
  · rcases rest with _ | ⟨c, value⟩
    · rw [List.append_nil]
      exact .inr (.inr ⟨s, lead_long s, .inr rfl⟩)
    · by_cases hc : c = equals
      · right; left
        refine ⟨_, (lead_long_cons s c value).trans (if_pos hc), ?_⟩
        rw [hc]
        exact .longEquals s value
      · exact .inl ((lead_long_cons s c value).trans (if_neg hc))

theorem lead_eq_value_iff : lead arg = some (.value s) ↔ Bare s arg := by
  constructor
  · intro h
    rcases lead_cases arg with hnone | ⟨f, hf, -⟩ | ⟨t, ht, hbare⟩
    · cases hnone.symm.trans h
    · cases hf.symm.trans h
    · cases ht.symm.trans h
      exact hbare
  · rintro (rfl | rfl)
    · exact lead_short s
    · exact lead_long s

theorem lead_eq_flag_iff : lead arg = some (.flag f) ↔ Spelling f [arg] := by
  constructor
  · intro h
    rcases lead_cases arg with hnone | ⟨g, hg, hspelling⟩ | ⟨t, ht, -⟩
    · cases hnone.symm.trans h
    · cases hg.symm.trans h
      exact hspelling
    · cases ht.symm.trans h
  · intro h
    cases h with
    | shortHelp | longHelp | shortQuiet | longQuiet => rfl
    | attached s c value hc => rw [lead_short_cons, if_neg hc]
    | shortEquals s value => rw [lead_short_cons, if_pos rfl]
    | longEquals s value => rw [lead_long_cons, if_pos rfl]

/-- A spelling is one argument that is a whole flag, or a flag that lacks its value and the
value. -/
theorem spelling_iff {spelled : List Bytes} : Spelling f spelled ↔
    (∃ arg, spelled = [arg] ∧ lead arg = some (.flag f)) ∨
    ∃ s arg value, spelled = [arg, value] ∧ f = .setting s value ∧ lead arg = some (.value s) := by
  constructor
  · intro h
    have hself := h
    cases h with
    | shortApart s value => exact .inr ⟨s, _, value, rfl, rfl, lead_short s⟩
    | longApart s value => exact .inr ⟨s, _, value, rfl, rfl, lead_long s⟩
    | _ => exact .inl ⟨_, rfl, lead_eq_flag_iff.2 hself⟩
  · rintro (⟨arg, rfl, h⟩ | ⟨s, arg, value, rfl, rfl, h⟩)
    · exact lead_eq_flag_iff.1 h
    · rcases lead_eq_value_iff.1 h with rfl | rfl
      · exact .shortApart s value
      · exact .longApart s value

theorem begins_iff : Begins arg ↔ lead arg ≠ none := by
  constructor
  · rintro ⟨f, more, h⟩ hnone
    rcases spelling_iff.1 h with ⟨arg', heq, hlead⟩ | ⟨s, arg', value, heq, -, hlead⟩ <;> cases heq
    · cases hnone.symm.trans hlead
    · cases hnone.symm.trans hlead
  · intro hsome
    rcases lead_cases arg with hnone | ⟨f, -, hspelling⟩ | ⟨s, -, rfl | rfl⟩
    · exact absurd hnone hsome
    · exact ⟨f, [], hspelling⟩
    · exact ⟨_, _, .shortApart s []⟩
    · exact ⟨_, _, .longApart s []⟩

/-- Of two lists of arguments that begin with spellings and are the same, the spellings are too. -/
theorem Spelling.inj {g : Flag} {spelled spelled' rest rest' : List Bytes}
    (h : Spelling f spelled) (k : Spelling g spelled') (heq : spelled ++ rest = spelled' ++ rest') :
    f = g ∧ spelled = spelled' ∧ rest = rest' := by
  rcases spelling_iff.1 h with ⟨arg, rfl, hf⟩ | ⟨s, arg, value, rfl, rfl, hs⟩ <;>
    rcases spelling_iff.1 k with ⟨arg', rfl, hg⟩ | ⟨t, arg', value', rfl, rfl, ht⟩ <;>
    cases heq
  · cases hf.symm.trans hg
    exact ⟨rfl, rfl, rfl⟩
  · cases hf.symm.trans ht
  · cases hs.symm.trans hg
  · cases hs.symm.trans ht
    exact ⟨rfl, rfl, rfl⟩

/-- The normal form of a flag is one of its spellings. -/
theorem spelling_spell (f : Flag) : Spelling f [f.spell] := by
  cases f with
  | help => exact .longHelp
  | quiet => exact .longQuiet
  | setting s value => exact .longEquals s value

/-! ### Cuts -/

/-- Arguments cut into the spellings of flags and what leads every command. -/
structure Cut (arguments : List Bytes) (flags : List Flag) (spelled : List (List Bytes))
    (leading : Command) : Prop where
  whole : arguments = spelled.flatten ++ leading
  spelled : List.Forall₂ Spelling flags spelled
  ends : ∀ arg, leading.head? = some arg → ¬ Begins arg

variable {arguments : List Bytes} {flags : List Flag} {spelled : List (List Bytes)}
  {leading : Command}

theorem split_spelling {u : List Bytes} (h : Spelling f u) (rest : List Bytes) :
    split (u ++ rest) = (split rest).map (push f) := by
  rcases spelling_iff.1 h with ⟨arg, rfl, hf⟩ | ⟨s, arg, value, rfl, rfl, hs⟩
  · show split (arg :: rest) = _
    rw [split_cons, hf]
  · show split (arg :: value :: rest) = _
    rw [split_cons, hs]

theorem split_of_spelled (h : List.Forall₂ Spelling flags spelled) (rest : List Bytes) :
    split (spelled.flatten ++ rest) =
      (split rest).map fun found => (flags ++ found.1, found.2) := by
  induction h with
  | nil =>
      show split rest = _
      cases split rest <;> rfl
  | cons hspelling _ ih =>
      rw [List.flatten_cons, List.append_assoc, split_spelling hspelling, ih]
      cases split rest <;> rfl

theorem split_leading (h : ∀ arg, leading.head? = some arg → ¬ Begins arg) :
    split leading = .ok ([], leading) := by
  cases leading with
  | nil => rfl
  | cons arg rest =>
      have hnone : lead arg = none := by
        have hno := h arg rfl
        rwa [begins_iff, not_not] at hno
      rw [split_cons, hnone]

theorem Cut.split_eq (h : Cut arguments flags spelled leading) :
    split arguments = .ok (flags, leading) := by
  rw [h.whole, split_of_spelled h.spelled, split_leading h.ends]
  show Except.ok (flags ++ [], leading) = _
  rw [List.append_nil]

theorem split_bare (h : Bare s arg) : split [arg] = .error arg := by
  rw [split_cons, lead_eq_value_iff.2 h]

/-- After the spellings of flags, the last argument is one that lacks its value. -/
def Dangling (arguments : List Bytes) (arg : Bytes) : Prop :=
  ∃ flags spelled s, List.Forall₂ Spelling flags spelled ∧
    arguments = spelled.flatten ++ [arg] ∧ Bare s arg

theorem Dangling.split_eq (h : Dangling arguments arg) : split arguments = .error arg := by
  obtain ⟨flags, spelled, s, hspelled, rfl, hbare⟩ := h
  rw [split_of_spelled hspelled, split_bare hbare]
  rfl

section cons

variable {u rest : List Bytes} (hspelling : Spelling f u)

include hspelling

theorem Cut.cons (h : Cut rest flags spelled leading) :
    Cut (u ++ rest) (f :: flags) (u :: spelled) leading where
  whole := by rw [h.whole, List.flatten_cons, List.append_assoc]
  spelled := .cons hspelling h.spelled
  ends := h.ends

theorem Dangling.cons (h : Dangling rest arg) : Dangling (u ++ rest) arg := by
  obtain ⟨flags, spelled, s, hspelled, rfl, hbare⟩ := h
  exact ⟨f :: flags, u :: spelled, s, .cons hspelling hspelled, by simp, hbare⟩

/-- What holds of the arguments after a spelling holds of all. -/
theorem cut_or_dangling_cons
    (h : (∃ flags spelled leading, Cut rest flags spelled leading) ∨ ∃ arg, Dangling rest arg) :
    (∃ flags spelled leading, Cut (u ++ rest) flags spelled leading) ∨
      ∃ arg, Dangling (u ++ rest) arg :=
  h.imp (fun ⟨flags, spelled, leading, h⟩ => ⟨f :: flags, u :: spelled, leading, h.cons hspelling⟩)
    fun ⟨arg, h⟩ => ⟨arg, h.cons hspelling⟩

end cons

/-- Every command line can be cut, unless it ends with a flag that lacks its value. -/
theorem cut_or_dangling : ∀ arguments : List Bytes,
    (∃ flags spelled leading, Cut arguments flags spelled leading) ∨
      ∃ arg, Dangling arguments arg
  | [] => .inl ⟨[], [], [], rfl, .nil, fun _ h => by cases h⟩
  | arg :: rest => by
      rcases lead_cases arg with hnone | ⟨f, -, hspelling⟩ | ⟨s, hs, hbare⟩
      · refine .inl ⟨[], [], arg :: rest, rfl, .nil, fun head hhead hbegins => ?_⟩
        cases hhead
        exact begins_iff.1 hbegins hnone
      · exact cut_or_dangling_cons hspelling (cut_or_dangling rest)
      · match rest with
        | [] => exact .inr ⟨arg, [], [], s, .nil, rfl, hbare⟩
        | value :: rest =>
            have hspelling : Spelling (.setting s value) [arg, value] :=
              spelling_iff.2 (.inr ⟨s, arg, value, rfl, rfl, hs⟩)
            exact cut_or_dangling_cons hspelling (cut_or_dangling rest)

theorem split_eq_ok_iff :
    split arguments = .ok (flags, leading) ↔ ∃ spelled, Cut arguments flags spelled leading := by
  constructor
  · intro h
    rcases cut_or_dangling arguments with ⟨flags', spelled, leading', hcut⟩ | ⟨arg, hdangling⟩
    · cases h.symm.trans hcut.split_eq
      exact ⟨spelled, hcut⟩
    · cases h.symm.trans hdangling.split_eq
  · rintro ⟨spelled, hcut⟩
    exact hcut.split_eq

theorem split_eq_error_iff : split arguments = .error arg ↔ Dangling arguments arg := by
  constructor
  · intro h
    rcases cut_or_dangling arguments with ⟨flags', spelled, leading', hcut⟩ | ⟨arg', hdangling⟩
    · cases h.symm.trans hcut.split_eq
    · cases h.symm.trans hdangling.split_eq
      exact hdangling
  · exact Dangling.split_eq

/-- The spellings of the same flags in the same arguments are the same. -/
theorem spelled_unique {spelled' : List (List Bytes)} {rest rest' : List Bytes}
    (h : List.Forall₂ Spelling flags spelled) (k : List.Forall₂ Spelling flags spelled')
    (heq : spelled.flatten ++ rest = spelled'.flatten ++ rest') : spelled = spelled' := by
  induction h generalizing spelled' with
  | nil =>
      cases k
      rfl
  | cons hspelling _ ih =>
      cases k with
      | cons hspelling' k =>
          rw [List.flatten_cons, List.flatten_cons, List.append_assoc, List.append_assoc] at heq
          obtain ⟨-, rfl, hrest⟩ := hspelling.inj hspelling' heq
          rw [ih k hrest]

/-- The help flag has no other normal form, and no other flag has it. -/
theorem spell_eq_help (h : f.spell = Bytes.ofString "--help") : f = .help := by
  cases f with
  | help => rfl
  | quiet => cases h
  | setting s value =>
      cases s <;> simp [spell, Setting.long, Bytes.ofString, String.utf8EncodeChar] at h

theorem missingValue_of_bare (h : Bare s arg) : ∃ text ∈ ["-j", "--jobs", "-r", "--ring"],
    arg = Bytes.ofString text ∧ missingValue arg = "missing value for " ++ text := by
  cases s <;> rcases h with rfl | rfl
  · exact ⟨"-j", by simp, rfl, by decide⟩
  · exact ⟨"--jobs", by simp, rfl, by decide⟩
  · exact ⟨"-r", by simp, rfl, by decide⟩
  · exact ⟨"--ring", by simp, rfl, by decide⟩

/-- A help flag is found only where one is spelled. -/
theorem help_spelled (h : List.Forall₂ Spelling flags spelled) (hmem : Flag.help ∈ flags) :
    [Bytes.ofString "-h"] ∈ spelled ∨ [Bytes.ofString "--help"] ∈ spelled := by
  induction h with
  | nil => cases hmem
  | cons hspelling _ ih =>
      rcases List.mem_cons.1 hmem with rfl | hmem
      · cases hspelling
        · exact .inl List.mem_cons_self
        · exact .inr List.mem_cons_self
      · exact (ih hmem).imp (List.mem_cons_of_mem _) (List.mem_cons_of_mem _)

/-- The grammar of flags.  Splitting finds the flags and what follows them just if the arguments can
be cut so, and there is only one way to cut them; it fails just if the last argument is a flag that
lacks its value, and its complaint names that flag.  The normal forms of the flags found, in front
of what follows them, are split in the same way, and the help flag is among them only if it was
spelled. -/
theorem split_grammar (arguments : List Bytes) :
    (∀ flags leading, split arguments = .ok (flags, leading) ↔
      ∃ spelled, Cut arguments flags spelled leading) ∧
    (∀ flags spelled leading flags' spelled' leading', Cut arguments flags spelled leading →
      Cut arguments flags' spelled' leading' →
        flags = flags' ∧ spelled = spelled' ∧ leading = leading') ∧
    (∀ arg, split arguments = .error arg ↔ Dangling arguments arg) ∧
    (∀ arg, split arguments = .error arg → ∃ text ∈ ["-j", "--jobs", "-r", "--ring"],
      arg = Bytes.ofString text ∧ missingValue arg = "missing value for " ++ text) ∧
    ∀ flags leading, split arguments = .ok (flags, leading) →
      split (flags.map spell ++ leading) = .ok (flags, leading) ∧
      ∀ spelled, Cut arguments flags spelled leading →
        Bytes.ofString "--help" ∈ flags.map spell →
          [Bytes.ofString "-h"] ∈ spelled ∨ [Bytes.ofString "--help"] ∈ spelled := by
  refine ⟨fun _ _ => split_eq_ok_iff, fun flags spelled leading flags' spelled' leading' h k => ?_,
    fun _ => split_eq_error_iff, fun arg h => ?_, fun flags leading h => ⟨?_, ?_⟩⟩
  · cases h.split_eq.symm.trans k.split_eq
    exact ⟨rfl, spelled_unique h.spelled k.spelled (h.whole.symm.trans k.whole), rfl⟩
  · obtain ⟨-, -, s, -, -, hbare⟩ := split_eq_error_iff.1 h
    exact missingValue_of_bare hbare
  · obtain ⟨spelled, hcut⟩ := split_eq_ok_iff.1 h
    have hnormal :
        Cut (flags.map spell ++ leading) flags (flags.map fun f => [f.spell]) leading := by
      refine ⟨?_, ?_, hcut.ends⟩
      · rw [← List.flatMap_def, List.map_eq_flatMap]
      · exact List.forall₂_map_right_iff.2 (List.forall₂_same.2 fun f _ => spelling_spell f)
    exact hnormal.split_eq
  · intro spelled hcut hmem
    obtain ⟨f, hf, hspell⟩ := List.mem_map.1 hmem
    rw [spell_eq_help hspell] at hf
    exact help_spelled hcut.spelled hf

/-- A value that looks like a flag is a value, and what follows the first other argument is none. -/
theorem split_grammar_flag_as_value :
    let arguments := [Bytes.ofString "-r", Bytes.ofString "--help", Bytes.ofString "wc",
      Bytes.ofString "-q"]
    let flags := [Flag.setting .ring (Bytes.ofString "--help")]
    let leading := [Bytes.ofString "wc", Bytes.ofString "-q"]
    (∃ spelled, Cut arguments flags spelled leading) ∧
      split (flags.map spell ++ leading) = .ok (flags, leading) := by
  intro arguments flags leading
  have hsplit : split arguments = .ok (flags, leading) := by decide +kernel
  obtain ⟨hcut, -, -, -, hnormal⟩ := split_grammar arguments
  exact ⟨(hcut flags leading).1 hsplit, (hnormal flags leading hsplit).1⟩

end Flag

end OrderedJobs
