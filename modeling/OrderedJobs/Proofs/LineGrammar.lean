import OrderedJobs.Proofs.JobLines

/-! # The grammar of lines

What a pull makes of the bytes that are left is said here without the reading of lines and words:
the words of a line are its maximal runs without a space (`Line.Runs`), and a pull yields a command,
a complaint of one of three kinds, or the end of the stream, according to where the next terminator
is (`Source.Follows`).  That is all that a pull does (`Source.pull_iff`), so what successive pulls
yield can be read off the stream; in particular they come to a clean end exactly if the stream
consists of whole lines within the limits (`Source.pull_grammar`). -/

namespace OrderedJobs

/-! ### Words -/

namespace Line

variable {text word : Bytes} {ws : List Bytes}

/-- The maximal runs without a space in a text, in order. -/
inductive Runs : Bytes → List Bytes → Prop
  | nil : Runs [] []
  | space {text : Bytes} {ws : List Bytes} (h : Runs text ws) : Runs (Bytes.space :: text) ws
  | run {word text : Bytes} {ws : List Bytes} (hne : word ≠ []) (hword : Bytes.space ∉ word)
      (hend : ∀ b, text.head? = some b → b = Bytes.space) (h : Runs text ws) :
      Runs (word ++ text) (word :: ws)

/-- Reading a text from the right, what is in front of the complete words is a run that ends before
a space or with the text. -/
theorem runs_foldr (text : Bytes) : ∃ tail,
    text = (text.foldr wordStep ([], [])).1 ++ tail ∧
    Bytes.space ∉ (text.foldr wordStep ([], [])).1 ∧
    (∀ b, tail.head? = some b → b = Bytes.space) ∧
    Runs tail (text.foldr wordStep ([], [])).2 := by
  induction text with
  | nil => exact ⟨[], rfl, List.not_mem_nil, (fun b hb => by cases hb), .nil⟩
  | cons b text ih =>
      obtain ⟨tail, htext, hword, hend, hruns⟩ := ih
      rw [List.foldr_cons]
      generalize text.foldr wordStep ([], []) = x at htext hword hruns ⊢
      obtain ⟨word, ws⟩ := x
      dsimp only at htext hword hruns
      by_cases hb : b = Bytes.space
      · subst hb
        refine ⟨Bytes.space :: text, by simp [wordStep], by simp [wordStep], ?_, ?_⟩
        · intro b hb
          exact (Option.some.inj hb).symm
        · cases word with
          | nil =>
              rw [htext]
              exact .space hruns
          | cons c word =>
              rw [htext]
              exact .space (.run (List.cons_ne_nil c word) hword hend hruns)
      · refine ⟨tail, by simp [wordStep, hb, htext], ?_, hend, by simpa [wordStep, hb] using hruns⟩
        have hnot : ¬ Bytes.space = b := fun heq => hb heq.symm
        simp [wordStep, hb, hnot, hword]

theorem runs_words (text : Bytes) : Runs text (words text) := by
  obtain ⟨tail, htext, hword, hend, hruns⟩ := runs_foldr text
  unfold words
  generalize text.foldr wordStep ([], []) = x at htext hword hruns ⊢
  obtain ⟨word, ws⟩ := x
  dsimp only at htext hword hruns ⊢
  rw [htext]
  cases word with
  | nil => exact hruns
  | cons c word => exact .run (List.cons_ne_nil c word) hword hend hruns

theorem foldr_append_run (hword : Bytes.space ∉ word) (text : Bytes) :
    (word ++ text).foldr wordStep ([], []) =
      (word ++ (text.foldr wordStep ([], [])).1, (text.foldr wordStep ([], [])).2) := by
  induction word with
  | nil => rfl
  | cons b word ih =>
      rw [List.mem_cons, not_or] at hword
      have hb : ¬ b = Bytes.space := fun heq => hword.1 heq.symm
      rw [List.cons_append, List.foldr_cons, ih hword.2, wordStep, if_neg hb]
      rfl

theorem words_append_run (hne : word ≠ []) (hword : Bytes.space ∉ word)
    (hend : ∀ b, text.head? = some b → b = Bytes.space) :
    words (word ++ text) = word :: words text := by
  have hfirst : (text.foldr wordStep ([], [])).1 = [] := by
    cases text with
    | nil => rfl
    | cons b text =>
        rw [hend b rfl]
        simp [wordStep]
  unfold words
  rw [foldr_append_run hword, hfirst, List.append_nil]
  simp [hne, hfirst]

/-- A text has no other runs than its words. -/
theorem runs_iff : Runs text ws ↔ words text = ws := by
  constructor
  · intro h
    induction h with
    | nil => rfl
    | space _ ih => rw [words_space_cons, ih]
    | run hne hword hend _ ih => rw [words_append_run hne hword hend, ih]
  · rintro rfl
    exact runs_words text

theorem command_cut (leading : Command) {line : Bytes} (hw : Bytes.newline ∉ line) :
    command leading line =
      .error (if maxLength ≤ line.length then .tooLong else .missingNewline) := by
  unfold command
  rw [Source.endsLine_eq_false hw, Bool.not_false, if_pos rfl]

end Line

/-! ### Reading up to a terminator or a limit -/

namespace Source

variable {stream line rest text : Bytes} {texts : List Bytes} {n k : Nat} {leading : Command}
  {s s' : Source} {p : Pull}

theorem splitLine_go_take (hw : Bytes.newline ∉ stream.take n) (taken : Bytes) :
    splitLine.go n stream taken = (taken.reverse ++ stream.take n, stream.drop n) := by
  induction n generalizing stream taken with
  | zero => simp [splitLine.go]
  | succ n ih =>
      cases stream with
      | nil => simp [splitLine.go]
      | cons b stream =>
          rw [List.take_succ_cons, List.mem_cons, not_or] at hw
          rw [splitLine.go, if_neg (fun heq => hw.1 heq.symm), ih hw.2]
          simp

theorem splitLine_take (hw : Bytes.newline ∉ stream.take n) :
    splitLine n stream = (stream.take n, stream.drop n) :=
  splitLine_go_take hw []

/-! ### What a pull does -/

/-- A pull yields `p` and leaves the source `s'`: the next terminator, and the words in front of it,
decide.  The limits are written out, for a line with its terminator and for a whole command. -/
inductive Follows (leading : Command) (s : Source) : Pull → Source → Prop
  | closed (h : s.closed = true) : Follows leading s .exhausted s
  | ended (h : s.closed = false) (hrest : s.rest = []) :
      Follows leading s .exhausted { s with closed := true }
  | command {text rest : Bytes} {ws : List Bytes} (h : s.closed = false)
      (hrest : s.rest = text ++ Bytes.newline :: rest) (hw : Bytes.newline ∉ text)
      (hlen : text.length + 1 ≤ 99999) (hruns : Line.Runs text ws)
      (hfew : leading.length + ws.length ≤ 999) :
      Follows leading s (.command (leading ++ ws))
        { s with rest := rest, position := s.position + (text.length + 1) }
  | tooManyArguments {text rest : Bytes} {ws : List Bytes} (h : s.closed = false)
      (hrest : s.rest = text ++ Bytes.newline :: rest) (hw : Bytes.newline ∉ text)
      (hlen : text.length + 1 ≤ 99999) (hruns : Line.Runs text ws)
      (hmany : 999 < leading.length + ws.length) :
      Follows leading s (.refused .tooManyArguments (text ++ [Bytes.newline]))
        { rest := rest, position := s.position + (text.length + 1), closed := true }
  | tooLong {line rest : Bytes} (h : s.closed = false) (hrest : s.rest = line ++ rest)
      (hw : Bytes.newline ∉ line) (hlen : line.length = 99999) :
      Follows leading s (.refused .tooLong line)
        { rest := rest, position := s.position + line.length, closed := true }
  | missingNewline (h : s.closed = false) (hne : s.rest ≠ []) (hw : Bytes.newline ∉ s.rest)
      (hlen : s.rest.length < 99999) :
      Follows leading s (.refused .missingNewline s.rest)
        { rest := [], position := s.position + s.rest.length, closed := true }

theorem exists_follows (leading : Command) (s : Source) : ∃ p s', s.Follows leading p s' := by
  cases hclosed : s.closed with
  | true => exact ⟨_, _, .closed hclosed⟩
  | false =>
      -- Within the limit there is a terminator; or else the stream or the limit ends first.
      by_cases hw : Bytes.newline ∈ s.rest.take 99999
      · obtain ⟨text, more, htake, htext⟩ := List.eq_append_cons_of_mem hw
        have hrest : s.rest = text ++ Bytes.newline :: (more ++ s.rest.drop 99999) := by
          have happend := List.take_append_drop 99999 s.rest
          rw [htake, List.append_assoc, List.cons_append] at happend
          exact happend.symm
        have hlen : text.length + 1 ≤ 99999 := by
          have hle := List.length_take_le 99999 s.rest
          rw [htake, List.length_append, List.length_cons] at hle
          omega
        have hruns := Line.runs_words text
        rcases Nat.lt_or_ge 999 (leading.length + (Line.words text).length) with hmany | hfew
        · exact ⟨_, _, .tooManyArguments hclosed hrest htext hlen hruns hmany⟩
        · exact ⟨_, _, .command hclosed hrest htext hlen hruns hfew⟩
      · rcases Nat.lt_or_ge s.rest.length 99999 with hlt | hge
        · rw [List.take_of_length_le (Nat.le_of_lt hlt)] at hw
          by_cases hne : s.rest = []
          · exact ⟨_, _, .ended hclosed hne⟩
          · exact ⟨_, _, .missingNewline hclosed hne hw hlt⟩
        · exact ⟨_, _, .tooLong hclosed (List.take_append_drop 99999 s.rest).symm hw
            (List.length_take_of_le hge)⟩

theorem Follows.pull_eq (h : s.Follows leading p s') : s.pull leading = (p, s') := by
  cases h with
  | closed h =>
      unfold pull
      rw [if_pos h]
  | ended h hrest => exact pull_nil leading h hrest
  | @command text rest ws h hrest hw hlen hruns hfew =>
      rw [Line.runs_iff] at hruns
      subst hruns
      have hfew : ¬ Line.maxArguments < leading.length + (Line.words text).length :=
        Nat.not_lt.2 hfew
      rw [pull_whole leading h hrest hw hlen, if_neg hfew, List.length_append,
        List.length_singleton]
  | @tooManyArguments text rest ws h hrest hw hlen hruns hmany =>
      rw [Line.runs_iff] at hruns
      subst hruns
      have hmany : Line.maxArguments < leading.length + (Line.words text).length := hmany
      rw [pull_whole leading h hrest hw hlen, if_pos hmany, List.length_append,
        List.length_singleton]
  | @tooLong line rest h hrest hw hlen =>
      have htake : s.rest.take Line.maxLength = line := by
        rw [hrest]
        exact List.take_left' hlen
      have hdrop : s.rest.drop Line.maxLength = rest := by
        rw [hrest]
        exact List.drop_left' hlen
      have hsplit := splitLine_take (n := Line.maxLength) (by rw [htake]; exact hw)
      rw [htake, hdrop] at hsplit
      have hne : line ≠ [] := by
        rintro rfl
        cases hlen
      have hlong : Line.maxLength ≤ line.length := Nat.le_of_eq hlen.symm
      rw [pull_split leading h hne hsplit, Line.command_cut leading hw, if_pos hlong]
  | missingNewline h hne hw hlen =>
      have htake : s.rest.take Line.maxLength = s.rest := List.take_of_length_le (Nat.le_of_lt hlen)
      have hdrop : s.rest.drop Line.maxLength = [] := List.drop_of_length_le (Nat.le_of_lt hlen)
      have hsplit := splitLine_take (n := Line.maxLength) (by rw [htake]; exact hw)
      rw [htake, hdrop] at hsplit
      have hshort : ¬ Line.maxLength ≤ s.rest.length := Nat.not_le.2 hlen
      rw [pull_split leading h hne hsplit, Line.command_cut leading hw, if_neg hshort]

/-- A pull does what the next terminator decides, and nothing else. -/
theorem pull_iff : s.pull leading = (p, s') ↔ s.Follows leading p s' := by
  refine ⟨fun h => ?_, Follows.pull_eq⟩
  obtain ⟨p', s'', hfollows⟩ := exists_follows leading s
  rw [hfollows.pull_eq] at h
  cases h
  exact hfollows

/-- What a pull takes is what it moved past, and what it refuses is all of it. -/
theorem Follows.taken (h : s.Follows leading p s') :
    ∃ line, s.rest = line ++ s'.rest ∧ s'.position = s.position + line.length ∧
      line.length ≤ 99999 ∧ ∀ fault refused, p = .refused fault refused → refused = line := by
  cases h with
  | closed h => exact ⟨[], rfl, rfl, Nat.zero_le _, fun _ _ hp => by cases hp⟩
  | ended h hrest => exact ⟨[], rfl, rfl, Nat.zero_le _, fun _ _ hp => by cases hp⟩
  | @command text rest ws h hrest hw hlen =>
      refine ⟨text ++ [Bytes.newline], by simp [hrest], by simp, by simpa using hlen, ?_⟩
      intro _ _ hp
      cases hp
  | @tooManyArguments text rest ws h hrest hw hlen =>
      refine ⟨text ++ [Bytes.newline], by simp [hrest], by simp, by simpa using hlen, ?_⟩
      intro _ _ hp
      cases hp
      rfl
  | @tooLong line rest h hrest hw hlen =>
      refine ⟨line, hrest, rfl, Nat.le_of_eq hlen, ?_⟩
      intro _ _ hp
      cases hp
      rfl
  | missingNewline h hne hw hlen =>
      refine ⟨s.rest, (List.append_nil _).symm, rfl, Nat.le_of_lt hlen, ?_⟩
      intro _ _ hp
      cases hp
      rfl

theorem Follows.closes (h : s.Follows leading p s') (hp : ∀ c, p ≠ .command c) :
    s'.closed = true := by
  cases h with
  | closed h => exact h
  | command => exact absurd rfl (hp _)
  | ended | tooManyArguments | tooLong | missingNewline => rfl

/-! ### Successive pulls -/

/-- The source after some pulls. -/
def after (leading : Command) (s : Source) : Nat → Source
  | 0 => s
  | k + 1 => ((s.after leading k).pull leading).2

theorem follows_after (leading : Command) (s : Source) (k : Nat) :
    (s.after leading k).Follows leading ((s.after leading k).pull leading).1
      (s.after leading (k + 1)) :=
  pull_iff.1 rfl

theorem after_rest (leading : Command) (stream : Bytes) (k : Nat) :
    let s := ({ rest := stream } : Source).after leading k
    s.position ≤ stream.length ∧ s.rest = stream.drop s.position := by
  induction k with
  | zero => exact ⟨Nat.zero_le _, rfl⟩
  | succ k ih =>
      obtain ⟨hle, hrest⟩ := ih
      obtain ⟨line, hline, hposition, -, -⟩ :=
        (follows_after leading { rest := stream } k).taken
      have hlength := congrArg List.length (hrest.symm.trans hline)
      rw [List.length_drop, List.length_append] at hlength
      refine ⟨by omega, ?_⟩
      rw [hposition, ← List.drop_drop, ← hrest, hline, List.drop_left]

theorem after_closed (hclosed : s.closed = true) (k : Nat) : s.after leading k = s := by
  induction k with
  | zero => rfl
  | succ k ih => rw [after, ih, (Follows.closed hclosed).pull_eq]

theorem after_add (leading : Command) (s : Source) (j k : Nat) :
    s.after leading (j + k) = (s.after leading j).after leading k := by
  induction k with
  | zero => rfl
  | succ k ih => rw [← Nat.add_assoc, after, after, ih]

theorem ends_after (hp : ∀ c, ((s.after leading k).pull leading).1 ≠ .command c) {j : Nat}
    (hj : k < j) : (s.after leading j).pull leading = (.exhausted, s.after leading (k + 1)) := by
  have hclosed := (follows_after leading s k).closes hp
  obtain ⟨i, rfl⟩ := Nat.exists_eq_add_of_le hj
  rw [after_add, after_closed hclosed]
  exact (Follows.closed hclosed).pull_eq

theorem pulls_exhausted (h : s.pull leading = (.exhausted, s')) :
    pulls leading (n + 1) s = [(.exhausted, s')] := by
  rw [pulls, h]

theorem pulls_cons (h : s.pull leading = (p, s')) (hp : p ≠ .exhausted) :
    pulls leading (n + 1) s = (p, s') :: pulls leading n s' := by
  rw [pulls, h]
  cases p with
  | exhausted => exact absurd rfl hp
  | command c => rfl
  | refused fault line => rfl

/-- A list of pulls goes up to the first one that finds the stream at its end, if it is long
enough. -/
theorem getElem?_pulls (leading : Command) (n : Nat) (s : Source) (i : Nat) (x : Pull × Source) :
    (pulls leading n s)[i]? = some x ↔ i < n ∧
      (∀ j, j < i → ((s.after leading j).pull leading).1 ≠ .exhausted) ∧
      (s.after leading i).pull leading = x := by
  induction n generalizing s i with
  | zero => simp [pulls]
  | succ n ih =>
      obtain ⟨p, s', hpull⟩ : ∃ p s', s.pull leading = (p, s') := ⟨_, _, rfl⟩
      have hfirst : ((s.after leading 0).pull leading).1 = p := congrArg Prod.fst hpull
      have hnext : ∀ j, s'.after leading j = s.after leading (j + 1) := by
        intro j
        rw [Nat.add_comm, after_add, after, after, hpull]
      by_cases hp : p = .exhausted
      · subst hp
        rw [pulls_exhausted hpull]
        cases i with
        | zero => simp [after, hpull]
        | succ i =>
            simp only [List.getElem?_cons_succ, List.getElem?_nil, reduceCtorEq, false_iff]
            exact fun ⟨_, hbefore, _⟩ => hbefore 0 (Nat.succ_pos i) hfirst
      · rw [pulls_cons hpull hp]
        cases i with
        | zero => simp [after, hpull]
        | succ i =>
            rw [List.getElem?_cons_succ, ih, Nat.add_lt_add_iff_right, hnext]
            refine and_congr_right fun _ => and_congr_left fun _ => ⟨fun h j hj => ?_, ?_⟩
            · cases j with
              | zero => rwa [hfirst]
              | succ j =>
                  rw [← hnext]
                  exact h j (Nat.lt_of_succ_lt_succ hj)
            · intro h j hj
              rw [hnext]
              exact h (j + 1) (Nat.succ_lt_succ hj)

/-! ### The clean end -/

/-- Pulls yield some commands and then the end of the stream. -/
inductive EndsAfter (leading : Command) : Nat → Source → Prop
  | ended {s s' : Source} (h : s.pull leading = (.exhausted, s')) : EndsAfter leading 0 s
  | command {n : Nat} {s s' : Source} {c : Command} (h : s.pull leading = (.command c, s'))
      (hnext : EndsAfter leading n s') : EndsAfter leading (n + 1) s

/-- A source comes to a clean end if it consists of valid lines, and then it yields as many
commands. -/
theorem endsAfter_iff (hclosed : s.closed = false) : s.EndsAfter leading n ↔
    ∃ texts, texts.length = n ∧ (∀ text ∈ texts, Line.Valid leading text) ∧
      s.rest = ofLines texts := by
  constructor
  · intro h
    induction h with
    | ended h =>
        rw [pull_iff] at h
        cases h with
        | closed h =>
            rw [h] at hclosed
            cases hclosed
        | ended _ hrest => exact ⟨[], rfl, by simp, hrest⟩
    | command h _ ih =>
        rw [pull_iff] at h
        cases h with
        | @command text rest ws h hrest hw hlen hruns hfew =>
            rw [Line.runs_iff] at hruns
            subst hruns
            obtain ⟨texts, rfl, hvalid, hmore⟩ := ih h
            have hmore : rest = ofLines texts := hmore
            refine ⟨text :: texts, rfl, ?_, ?_⟩
            · rw [List.forall_mem_cons]
              exact ⟨⟨hw, hlen, hfew⟩, hvalid⟩
            · simp [hrest, hmore, ofLines]
  · rintro ⟨texts, rfl, hvalid, hrest⟩
    induction texts generalizing s with
    | nil => exact .ended (pull_nil leading hclosed hrest)
    | cons text texts ih =>
        rw [List.forall_mem_cons] at hvalid
        have hline : s.rest = text ++ Bytes.newline :: ofLines texts := by
          simp [hrest, ofLines]
        exact .command (pull_line hvalid.1 hclosed hline) (ih (by exact hclosed) hvalid.2 rfl)

theorem endsLine_ofLines (h : texts ≠ []) : (ofLines texts).endsLine = true := by
  rw [← List.dropLast_concat_getLast h, ofLines, List.flatMap_append, List.flatMap_singleton,
    ← List.append_assoc, Bytes.endsLine_append_singleton, beq_self_eq_true]

theorem exists_ofLines (h : stream = [] ∨ stream.endsLine = true) :
    ∃ texts, (∀ text ∈ texts, Bytes.newline ∉ text) ∧ stream = ofLines texts := by
  induction stream with
  | nil => exact ⟨[], by simp, rfl⟩
  | cons b stream ih =>
      have hends : Bytes.endsLine (b :: stream) = true := h.resolve_left (List.cons_ne_nil _ _)
      by_cases hempty : stream = []
      · subst hempty
        have hb : b = Bytes.newline := eq_of_beq hends
        exact ⟨[[]], by simp, by simp [ofLines, hb]⟩
      · have htail : Bytes.endsLine stream = true := by
          rw [← Bytes.endsLine_append (b := [b]) hempty]
          exact hends
        obtain ⟨texts, hwhole, hstream⟩ := ih (.inr htail)
        by_cases hb : b = Bytes.newline
        · refine ⟨[] :: texts, by simpa using hwhole, ?_⟩
          simp [hstream, ofLines, hb]
        · cases texts with
          | nil => exact absurd hstream hempty
          | cons text texts =>
              rw [List.forall_mem_cons] at hwhole
              refine ⟨(b :: text) :: texts, ?_, by simp [hstream, ofLines]⟩
              rw [List.forall_mem_cons, List.mem_cons, not_or]
              exact ⟨⟨fun heq => hb heq.symm, hwhole.1⟩, hwhole.2⟩

theorem dropLast_lines (hw : ∀ text ∈ texts, Bytes.newline ∉ text) :
    (lines (ofLines texts)).dropLast = texts := by
  have hlines := lines_ofLines_append hw []
  rw [List.append_nil] at hlines
  rw [hlines]
  exact List.dropLast_concat

theorem count_ofLines (hw : ∀ text ∈ texts, Bytes.newline ∉ text) :
    (ofLines texts).count Bytes.newline = texts.length := by
  have hlength := congrArg List.length (dropLast_lines hw)
  rw [List.length_dropLast, length_lines] at hlength
  exact hlength

theorem endsAfter_stream (leading : Command) (stream : Bytes) (n : Nat) :
    ({ rest := stream } : Source).EndsAfter leading n ↔
      (stream = [] ∨ stream.endsLine = true) ∧
      (∀ text ∈ (lines stream).dropLast, text.length + 1 ≤ 99999 ∧
        ∃ ws, Line.Runs text ws ∧ leading.length + ws.length ≤ 999) ∧
      n = stream.count Bytes.newline := by
  rw [endsAfter_iff rfl]
  constructor
  · rintro ⟨texts, rfl, hvalid, hstream⟩
    have hstream : stream = ofLines texts := hstream
    have hwhole : ∀ text ∈ texts, Bytes.newline ∉ text := fun text h => (hvalid text h).whole
    subst hstream
    refine ⟨?_, ?_, (count_ofLines hwhole).symm⟩
    · by_cases hempty : texts = []
      · exact .inl (by rw [hempty]; rfl)
      · exact .inr (endsLine_ofLines hempty)
    · rw [dropLast_lines hwhole]
      intro text h
      exact ⟨(hvalid text h).short, _, Line.runs_words text, (hvalid text h).few⟩
  · rintro ⟨hends, hlimits, rfl⟩
    obtain ⟨texts, hwhole, rfl⟩ := exists_ofLines hends
    rw [dropLast_lines hwhole] at hlimits
    refine ⟨texts, (count_ofLines hwhole).symm, fun text h => ?_, rfl⟩
    obtain ⟨hshort, ws, hruns, hfew⟩ := hlimits text h
    rw [Line.runs_iff] at hruns
    subst hruns
    exact ⟨hwhole text h, hshort, hfew⟩

/-- The grammar of a stream of commands.  Each pull does what the next terminator decides, with what
is left of the stream from the position on; the bytes that it refuses are those that it took.  After
the end or a refusal, every pull ends.  The stream comes to a clean end just if it is empty or ends
in a terminator and all of its lines are within the limits; it has as many commands as terminators
then. -/
theorem pull_grammar (leading : Command) (stream : Bytes) :
    let start : Source := { rest := stream }
    (∀ k p next, let s := start.after leading k
      s.position ≤ stream.length ∧ s.rest = stream.drop s.position ∧
      (s.pull leading = (p, next) ↔ s.Follows leading p next)) ∧
    (∀ k fault line next, let s := start.after leading k
      s.pull leading = (.refused fault line, next) → line.length ≤ 99999 ∧
        next.position = s.position + line.length ∧
        line = (stream.drop s.position).take line.length) ∧
    (∀ k, (∀ c, ((start.after leading k).pull leading).1 ≠ .command c) → ∀ j, k < j →
      (start.after leading j).pull leading = (.exhausted, start.after leading (k + 1))) ∧
    ∀ n, start.EndsAfter leading n ↔ (stream = [] ∨ stream.endsLine = true) ∧
      (∀ text ∈ (lines stream).dropLast, text.length + 1 ≤ 99999 ∧
        ∃ ws, Line.Runs text ws ∧ leading.length + ws.length ≤ 999) ∧
      n = stream.count Bytes.newline := by
  intro start
  refine ⟨fun k p next => ?_, fun k fault line next => ?_, fun k hp j hj => ends_after hp hj,
    endsAfter_stream leading stream⟩
  · obtain ⟨hle, hrest⟩ := after_rest leading stream k
    exact ⟨hle, hrest, pull_iff⟩
  · intro s hpull
    obtain ⟨taken, htaken, hposition, hlen, hrefused⟩ := (pull_iff.1 hpull).taken
    obtain ⟨-, hrest⟩ := after_rest leading stream k
    obtain rfl := hrefused fault line rfl
    refine ⟨hlen, hposition, ?_⟩
    rw [← hrest, htaken, List.take_left]

/-- The first line is a command; the second has no terminator, so it is refused and then pulls end.
Without it, the stream comes to a clean end. -/
theorem pull_grammar_missing_newline :
    let start : Source := { rest := [0x61, 0x20, 0x20, 0x62, 0x0a, 0x63] }
    (∃ next, start.pull [[0x70]] = (.command [[0x70], [0x61], [0x62]], next)) ∧
    (∃ next, (start.after [[0x70]] 1).pull [[0x70]] = (.refused .missingNewline [0x63], next) ∧
      next.position = 6) ∧
    ((start.after [[0x70]] 4).pull [[0x70]]).1 = .exhausted ∧
    ({ rest := [0x61, 0x20, 0x20, 0x62, 0x0a] } : Source).EndsAfter [[0x70]] 1 := by
  intro start
  obtain ⟨-, hrefused, hends, -⟩ :=
    pull_grammar [[0x70]] [0x61, 0x20, 0x20, 0x62, 0x0a, 0x63]
  refine ⟨⟨_, rfl⟩, ⟨_, rfl, ?_⟩, ?_, ?_⟩
  · obtain ⟨-, hposition, -⟩ := hrefused 1 .missingNewline [0x63] _ rfl
    exact hposition
  · rw [hends 1 (fun c hc => by cases hc) 4 (by decide)]
  · apply ((pull_grammar [[0x70]] [0x61, 0x20, 0x20, 0x62, 0x0a]).2.2.2 1).2
    refine ⟨.inr (by decide), fun text h => ?_, by decide⟩
    refine ⟨?_, _, Line.runs_words text, ?_⟩
    all_goals
      revert text
      decide

end Source

end OrderedJobs
