import OrderedJobs.Proofs.LineGrammar

/-! # Lines, commands and echoes

Reading a line drops spaces and nothing else: the words of a text hold its other bytes in order, and
two of these are in one word exactly if no space is between them (`Line.CutsAtSpaces`).  Writing a
command joins its words with single spaces, so it is undone by reading (`Line.runs_joinWords`), and
no text with the same words is shorter (`Line.Runs.length_joinWords`).  So the echo of a command
that was read from a line is a line for that command again, and not a longer one
(`Line.echo_round_trip`). -/

namespace OrderedJobs.Line

variable {text line word : Bytes} {ws : List Bytes} {leading c : Command}

/-- The bytes of a text that are no spaces. -/
def letters (text : Bytes) : Bytes := text.filter (· ≠ Bytes.space)

/-- The word that the `k`-th byte of some words is in. -/
def wordOf : List Bytes → Nat → Nat
  | [], _ => 0
  | w :: ws, k => if k < w.length then 0 else wordOf ws (k - w.length) + 1

/-- Words that a text is cut into at its spaces.  A letter of the text is known among the words by
the number of letters before it. -/
structure CutsAtSpaces (text : Bytes) (ws : List Bytes) : Prop where
  proper : ∀ w ∈ ws, w ≠ [] ∧ Bytes.space ∉ w
  flatten : ws.flatten = letters text
  together : ∀ (before between after : Bytes) (x y : UInt8),
    text = before ++ x :: (between ++ y :: after) → x ≠ Bytes.space → y ≠ Bytes.space →
    (wordOf ws (letters before).length = wordOf ws (letters (before ++ x :: between)).length ↔
      Bytes.space ∉ between)

/-! ### Letters and words -/

theorem letters_append (a b : Bytes) : letters (a ++ b) = letters a ++ letters b := by
  unfold letters
  rw [List.filter_append]

theorem letters_space_cons (text : Bytes) : letters (Bytes.space :: text) = letters text := by
  simp [letters]

theorem letters_eq_self (h : Bytes.space ∉ word) : letters word = word := by
  apply List.filter_eq_self.2
  intro b hb
  rw [decide_eq_true_eq]
  rintro rfl
  exact h hb

theorem wordOf_within (hword : Bytes.space ∉ word) {a b : Bytes} {x : UInt8}
    (hx : word = a ++ x :: b) : wordOf (word :: ws) (letters a).length = 0 := by
  have ha : Bytes.space ∉ a := fun hmem => hword (hx ▸ List.mem_append_left _ hmem)
  rw [letters_eq_self ha, wordOf, if_pos (by simp [hx])]

theorem wordOf_behind (hword : Bytes.space ∉ word) (a : Bytes) :
    wordOf (word :: ws) (letters (word ++ a)).length = wordOf ws (letters a).length + 1 := by
  rw [letters_append, letters_eq_self hword, List.length_append, wordOf, if_neg (by omega),
    Nat.add_sub_cancel_left]

namespace Runs

variable (h : Runs text ws)
include h

theorem proper : ∀ w ∈ ws, w ≠ [] ∧ Bytes.space ∉ w := by
  induction h with
  | nil => exact fun w hw => absurd hw List.not_mem_nil
  | space _ ih => exact ih
  | run hne hword _ _ ih =>
      intro w hw
      rcases List.mem_cons.1 hw with rfl | hw
      · exact ⟨hne, hword⟩
      · exact ih w hw

theorem flatten : ws.flatten = letters text := by
  induction h with
  | nil => rfl
  | space _ ih => rw [letters_space_cons, ih]
  | run _ hword _ _ ih => rw [List.flatten_cons, letters_append, letters_eq_self hword, ih]

/-- Two letters are in one word exactly if no space is between them: by induction on the runs, where
both letters, one, or none may be in the first. -/
theorem together {before between after : Bytes} {x y : UInt8}
    (htext : text = before ++ x :: (between ++ y :: after)) (hx : x ≠ Bytes.space)
    (hy : y ≠ Bytes.space) : wordOf ws (letters before).length =
        wordOf ws (letters (before ++ x :: between)).length ↔ Bytes.space ∉ between := by
  induction h generalizing before with
  | nil => simp at htext
  | space _ ih =>
      cases before with
      | nil => exact absurd (List.cons.inj htext).1.symm hx
      | cons b before =>
          obtain ⟨rfl, hrest⟩ := List.cons.inj htext
          rw [List.cons_append, letters_space_cons, letters_space_cons]
          exact ih hrest
  | @run word text ws hne hword hend _ ih =>
      have hstart : ∀ (b : UInt8) (rest : Bytes), text = b :: rest → b = Bytes.space := by
        rintro b rest rfl
        exact hend b rfl
      rcases List.append_eq_append_iff.1 htext with ⟨later, rfl, hlater⟩ | ⟨tail, hfirst, htail⟩
      · rw [List.append_assoc, wordOf_behind hword, wordOf_behind hword, Nat.add_right_cancel_iff]
        exact ih hlater
      cases tail with
      | nil => exact absurd (hstart x _ htail.symm) hx
      | cons x' tail =>
          obtain ⟨rfl, hmore⟩ := List.cons.inj htail
          rw [wordOf_within hword hfirst]
          rcases List.append_eq_append_iff.1 hmore with ⟨rest, rfl, hrest⟩ | ⟨rest, rfl, hrest⟩
          · cases rest with
            | nil => exact absurd (hstart y _ hrest.symm) hy
            | cons y' rest =>
                obtain ⟨rfl, -⟩ := List.cons.inj hrest
                have hsecond : word = (before ++ x :: between) ++ y :: rest := by simp [hfirst]
                rw [wordOf_within hword hsecond]
                refine iff_of_true rfl fun hmem => hword ?_
                rw [hfirst]
                simp [hmem]
          · cases rest with
            | nil => exact absurd (hstart y _ hrest) hy
            | cons b rest =>
                obtain rfl := hstart b _ hrest
                have hsplit : before ++ x :: (tail ++ Bytes.space :: rest) =
                    word ++ Bytes.space :: rest := by simp [hfirst]
                rw [hsplit, wordOf_behind hword]
                exact iff_of_false (Nat.succ_ne_zero _).symm (by simp)

theorem cutsAtSpaces : CutsAtSpaces text ws :=
  ⟨h.proper, h.flatten, fun _ _ _ _ _ htext hx hy => h.together htext hx hy⟩

/-- Joined with single spaces, the words of a text are not longer than the text; they are shorter if
it begins with a space. -/
theorem length_joinWords : (Bytes.joinWords ws).length ≤ text.length ∧
    (text.head? = some Bytes.space → (Bytes.joinWords ws).length < text.length) := by
  induction h with
  | nil => exact ⟨Nat.le_refl 0, fun hhead => by cases hhead⟩
  | space _ ih =>
      rw [List.length_cons]
      exact ⟨Nat.le_succ_of_le ih.1, fun _ => Nat.lt_succ_of_le ih.1⟩
  | @run word text ws hne hword hend hruns ih =>
      constructor
      · cases ws with
        | nil => simp
        | cons v ws =>
            -- There is another word, so a space follows this one.
            have hhead : text.head? = some Bytes.space := by
              cases text with
              | nil => cases runs_iff.1 hruns
              | cons b text => rw [hend b rfl, List.head?_cons]
            have hlt := ih.2 hhead
            rw [Bytes.joinWords_cons_cons, List.length_append, List.length_append, List.length_cons]
            omega
      · intro hhead
        cases word with
        | nil => exact absurd rfl hne
        | cons b word =>
            have hb : b = Bytes.space := Option.some.inj hhead
            exact absurd (hb ▸ List.mem_cons_self) hword

end Runs

theorem runs_joinWords (h : ∀ w ∈ ws, w ≠ [] ∧ Bytes.space ∉ w) :
    Runs (Bytes.joinWords ws) ws := by
  induction ws with
  | nil => exact .nil
  | cons w ws ih =>
      rw [List.forall_mem_cons] at h
      obtain ⟨⟨hne, hword⟩, hws⟩ := h
      cases ws with
      | nil =>
          rw [Bytes.joinWords_singleton]
          have hrun := Runs.run hne hword (fun b hb => by cases hb) .nil
          rwa [List.append_nil] at hrun
      | cons v ws =>
          rw [Bytes.joinWords_cons_cons]
          exact .run hne hword (fun b hb => (Option.some.inj hb).symm) (.space (ih hws))

/-! ### Lines -/

theorem eq_append_of_endsLine (h : line.endsLine = true) :
    line = line.dropLast ++ [Bytes.newline] := by
  have hlast : line.getLast? = some Bytes.newline := eq_of_beq h
  obtain ⟨text, rfl⟩ := List.getLast?_eq_some_iff.1 hlast
  rw [List.dropLast_concat]

/-- A command comes of a terminated line, which is cut at its spaces. -/
theorem cut_of_command (h : command leading line = .ok c) : ∃ ws, c = leading ++ ws ∧
    line = line.dropLast ++ [Bytes.newline] ∧ Runs line.dropLast ws ∧
    leading.length + ws.length ≤ 999 := by
  unfold command at h
  cases hend : line.endsLine with
  | false =>
      rw [hend] at h
      cases h
  | true =>
      rw [hend, Bool.not_true, if_neg (by decide)] at h
      dsimp only at h
      split at h
      · cases h
      · next hfew =>
          cases h
          exact ⟨_, rfl, eq_append_of_endsLine hend, runs_words _, Nat.not_lt.1 hfew⟩

theorem command_joinWords (leading : Command) (h : ∀ w ∈ ws, w ≠ [] ∧ Bytes.space ∉ w)
    (hfew : leading.length + ws.length ≤ 999) :
    command leading (Bytes.joinWords ws ++ [Bytes.newline]) = .ok (leading ++ ws) := by
  have hfew : ¬ maxArguments < leading.length + ws.length := Nat.not_lt.2 hfew
  rw [command_line, runs_iff.1 (runs_joinWords h), if_neg hfew]

/-- A line that is accepted is cut at its spaces, and its words are put behind what leads every
command.  Any words are so accepted, up to the number of arguments.  In particular the uncoloured
echo of a command that was read from a line is read as this command again, and it is not longer than
the line. -/
theorem echo_round_trip (leading : Command) :
    (∀ line c, command leading line = .ok c → ∃ ws, c = leading ++ ws ∧
      line = line.dropLast ++ [Bytes.newline] ∧ CutsAtSpaces line.dropLast ws ∧
      leading.length + ws.length ≤ 999) ∧
    (∀ ws : List Bytes, (∀ w ∈ ws, w ≠ [] ∧ Bytes.space ∉ w) → leading.length + ws.length ≤ 999 →
      command leading (Bytes.joinWords ws ++ [Bytes.newline]) = .ok (leading ++ ws)) ∧
    ∀ line c, command [] line = .ok c → command [] (c.echo false) = .ok c ∧
      (c.echo false).length ≤ line.length ∧
      (line.length ≤ 99999 → (c.echo false).length ≤ 99999) := by
  refine ⟨fun line c h => ?_, fun ws h hfew => command_joinWords leading h hfew,
    fun line c h => ?_⟩
  · obtain ⟨ws, hc, hline, hruns, hfew⟩ := cut_of_command h
    exact ⟨ws, hc, hline, hruns.cutsAtSpaces, hfew⟩
  · obtain ⟨ws, hc, hline, hruns, hfew⟩ := cut_of_command h
    obtain rfl : c = ws := hc
    have hlength : (c.echo false).length ≤ line.length := by
      have hle := hruns.length_joinWords.1
      rw [hline, List.length_append]
      show (Bytes.joinWords c ++ [Bytes.newline]).length ≤ _
      rw [List.length_append]
      omega
    exact ⟨command_joinWords [] hruns.proper hfew, hlength, Nat.le_trans hlength⟩

/-- With two spaces between its words and one behind them, a line is longer than the echo. -/
theorem echo_round_trip_spacious :
    let line : Bytes := [0x61, 0x20, 0x20, 0x62, 0x63, 0x20, 0x0a]
    (∃ ws, [[0x70], [0x61], [0x62, 0x63]] = [[0x70]] ++ ws ∧ CutsAtSpaces line.dropLast ws) ∧
    command [[0x70]] (Bytes.joinWords [[0x61], [0x62, 0x63]] ++ [Bytes.newline]) =
      .ok [[0x70], [0x61], [0x62, 0x63]] ∧
    command [] (Command.echo false [[0x61], [0x62, 0x63]]) = .ok [[0x61], [0x62, 0x63]] ∧
    (Command.echo false [[0x61], [0x62, 0x63]]).length ≤ line.length := by
  intro line
  obtain ⟨hcut, hjoin, -⟩ := echo_round_trip [[0x70]]
  obtain ⟨-, -, hecho⟩ := echo_round_trip []
  obtain ⟨ws, hc, -, hcuts, -⟩ := hcut line [[0x70], [0x61], [0x62, 0x63]] rfl
  obtain ⟨hagain, hlength, -⟩ := hecho line [[0x61], [0x62, 0x63]] rfl
  exact ⟨⟨ws, hc, hcuts⟩, hjoin [[0x61], [0x62, 0x63]] (by decide) (by decide), hagain, hlength⟩

end OrderedJobs.Line
