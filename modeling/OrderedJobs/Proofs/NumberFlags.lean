import OrderedJobs.CommandLine.Literal

/-! # Numbers in flags

The value of a flag is read as an expression, whatever it is meant for.  A decimal numeral, with a
minus sign or without, is read as its number by that way (`Literal.read_toString`): its bytes are a
text, the text is cut into one token or two, and these make a factor, which all the looser phrases
pass on as it is (`Expression.read_expression`).  The only bound is that on the digits of an
integer. -/

namespace OrderedJobs

/-! ### ASCII texts -/

namespace Utf8

variable {s : String} {cs : List Char}

theorem ofString_of_ascii (h : ∀ c ∈ s.toList, c.toNat < 0x80) :
    Bytes.ofString s = s.toList.map fun c => UInt8.ofNat c.toNat := by
  unfold Bytes.ofString
  rw [List.map_eq_flatMap, List.flatMap_def, List.flatMap_def]
  congr 1
  refine List.map_congr_left fun c hc => ?_
  have hlt : c.val.toNat ≤ 127 := Nat.le_of_lt_succ (h c hc)
  unfold String.utf8EncodeChar
  exact if_pos hlt

theorem Reader.feed_ascii {c : Char} (h : c.toNat < 0x80) (done : List Piece) :
    feed ⟨done, none⟩ (UInt8.ofNat c.toNat) =
      ⟨.scalar c [UInt8.ofNat c.toNat] :: done, none⟩ := by
  have htoNat : (UInt8.ofNat c.toNat).toNat = c.toNat := by
    rw [UInt8.toNat_ofNat']
    omega
  have hlt : UInt8.ofNat c.toNat < 0x80 := by
    rw [UInt8.lt_iff_toNat_lt, htoNat]
    exact h
  show start done _ = _
  unfold start
  rw [if_pos hlt, htoNat, Char.ofNat_toNat]

theorem Reader.foldl_feed_ascii (h : ∀ c ∈ cs, c.toNat < 0x80) (done : List Piece) :
    (cs.map fun c => UInt8.ofNat c.toNat).foldl feed ⟨done, none⟩ =
      ⟨(cs.map fun c => Piece.scalar c [UInt8.ofNat c.toNat]).reverse ++ done, none⟩ := by
  induction cs generalizing done with
  | nil => rfl
  | cons c cs ih =>
      rw [List.forall_mem_cons] at h
      rw [List.map_cons, List.foldl_cons, feed_ascii h.1, ih h.2]
      simp

/-- A text of ASCII characters comes back from its bytes. -/
theorem pieces_ofString (h : ∀ c ∈ s.toList, c.toNat < 0x80) :
    pieces (Bytes.ofString s) = s.toList.map fun c => .scalar c [UInt8.ofNat c.toNat] := by
  rw [pieces, ofString_of_ascii h]
  have hread := Reader.foldl_feed_ascii h []
  rw [List.append_nil] at hread
  rw [hread]
  exact List.reverse_reverse _

theorem isWellFormed_ofString (h : ∀ c ∈ s.toList, c.toNat < 0x80) :
    isWellFormed (Bytes.ofString s) = true := by
  rw [isWellFormed, pieces_ofString h]
  simp

theorem decodeLenient_ofString (h : ∀ c ∈ s.toList, c.toNat < 0x80) :
    decodeLenient (Bytes.ofString s) = s := by
  rw [decodeLenient, pieces_ofString h, List.map_map]
  show String.ofList (s.toList.map id) = s
  rw [List.map_id, String.ofList_toList]

end Utf8

namespace Expression

/-! ### Digits -/

namespace Number

variable {cs : List Char} {n : Nat}

theorem digit?_of_isDigit {c : Char} (h : c.isDigit = true) :
    digit? 10 c = some (c.toNat - 48) := by
  have hle : c.toNat ≤ 57 := by
    simp only [Char.isDigit, Bool.and_eq_true, decide_eq_true_eq] at h
    exact h.2
  unfold digit?
  rw [if_pos h]
  exact if_pos (by omega)

theorem digits_of_isDigit (h : ∀ c ∈ cs, c.isDigit = true) (count n : Nat) :
    digits 10 count n true cs = some (count + cs.length, Nat.ofDigitChars 10 cs n, []) := by
  induction cs generalizing count n with
  | nil => rfl
  | cons c cs ih =>
      rw [List.forall_mem_cons] at h
      rw [digits, digit?_of_isDigit h.1]
      dsimp only
      rw [ih h.2, Nat.ofDigitChars_cons, List.length_cons, Nat.mul_comm 10 n]
      congr 2
      omega

theorem length_toDigits_le {k : Nat} (hk : 0 < k) (hn : n < Nat.pow 10 k) :
    (Nat.toDigits 10 n).length ≤ k :=
  (Nat.length_toDigits_le_iff (by decide) hk).2 hn

theorem isDigit_toDigits (n : Nat) : ∀ c ∈ Nat.toDigits 10 n, c.isDigit = true :=
  fun _ hc => Nat.isDigit_of_mem_toDigits (by decide) (by decide) hc

theorem head_toDigits (hn : n ≠ 0) {c : Char} (hc : (Nat.toDigits 10 n).head? = some c) :
    c ≠ '0' := by
  induction n using Nat.strongRecOn generalizing c with
  | ind n ih =>
      rw [Nat.toDigits_eq_if (by decide)] at hc
      split at hc
      · cases hc
        rwa [Ne, Nat.digitChar_eq_zero]
      · have hne : Nat.toDigits 10 (n / 10) ≠ [] := Nat.toDigits_ne_nil
        obtain ⟨d, ds, hds⟩ := List.exists_cons_of_ne_nil hne
        refine ih (n / 10) (by omega) (by omega) ?_
        rwa [hds] at hc ⊢

/-- The decimal digits of a number are at least one, and only zero begins with a zero. -/
theorem toDigits_cases (n : Nat) : ∃ c cs, Nat.toDigits 10 n = c :: cs ∧
    c.isDigit = true ∧ (∀ x ∈ cs, x.isDigit = true) ∧ (n ≠ 0 → c ≠ '0') := by
  obtain ⟨c, cs, hcs⟩ := List.exists_cons_of_ne_nil (Nat.toDigits_ne_nil (n := n) (b := 10))
  have hdigits := isDigit_toDigits n
  rw [hcs, List.forall_mem_cons] at hdigits
  exact ⟨c, cs, hcs, hdigits.1, hdigits.2, fun hn => head_toDigits hn (by rw [hcs]; rfl)⟩

theorem decimal_toDigits (hn : n < Nat.pow 10 Numeral.maxDigits) :
    decimal (Nat.toDigits 10 n) = some (.integer n, []) := by
  have hvalue : Nat.ofDigitChars 10 (Nat.toDigits 10 n) 0 = n := Nat.ofDigitChars_ten_toDigits
  have hlength : (Nat.toDigits 10 n).length ≤ Numeral.maxDigits :=
    length_toDigits_le (by decide) hn
  obtain ⟨c, cs, hcs, hc, hdigits, hhead⟩ := toDigits_cases n
  rw [hcs] at hvalue hlength ⊢
  have hrun : digits 10 0 0 false (c :: cs) = some ((c :: cs).length, n, []) := by
    rw [digits, digit?_of_isDigit hc]
    dsimp only
    rw [digits_of_isDigit hdigits, List.length_cons, Nat.add_comm]
    rw [Nat.ofDigitChars_cons, Nat.mul_comm] at hvalue
    rw [← hvalue]
    rfl
  have hinteger : decimalInteger ((c :: cs).head? == some '0') (c :: cs).length n =
      some (.integer n) := by
    refine if_neg fun ⟨hne, hor⟩ => ?_
    rcases hor with hzero | hmany
    · exact hhead hne (Option.some.inj (eq_of_beq hzero))
    · exact absurd hlength (Nat.not_le.2 hmany)
  unfold decimal
  rw [hrun, Option.bind_eq_bind, Option.bind_some]
  dsimp only
  rw [hinteger]
  rfl

/-- A decimal numeral of few enough digits is the number it spells. -/
theorem read_toDigits (hn : n < Nat.pow 10 Numeral.maxDigits) :
    read (Nat.toDigits 10 n) = some (.integer n, []) := by
  have hdecimal := decimal_toDigits hn
  by_cases hzero : n = 0
  · subst hzero
    rfl
  obtain ⟨c, cs, hcs, hc, -, hhead⟩ := toDigits_cases n
  rw [hcs] at hdecimal ⊢
  unfold read
  split
  · next heq =>
      cases heq
      exact absurd rfl (hhead hzero)
  · next heq =>
      cases heq
      cases hc
  · rw [hdecimal]
    rfl

theorem startsHere_cons {c : Char} (hc : c.isDigit = true) (cs : List Char) :
    startsHere (c :: cs) = true := by
  unfold startsHere
  split
  · next heq =>
      cases heq
      cases hc
  · next heq =>
      cases heq
      exact hc
  · next heq => cases heq

end Number

/-! ### Tokens -/

/-- The characters of a decimal numeral: digits and the minus sign. -/
def isNumeric (c : Char) : Bool := c.isDigit || c == '-'

theorem ne_of_isNumeric {c d : Char} (hc : isNumeric c = true) (hd : isNumeric d = false) :
    c ≠ d := by
  rintro rfl
  cases hc.symm.trans hd

theorem toNat_of_isNumeric {c : Char} (h : isNumeric c = true) :
    0 < c.toNat ∧ c.toNat < 0x80 := by
  rw [isNumeric, Bool.or_eq_true, beq_iff_eq] at h
  rcases h with hdigit | rfl
  · simp only [Char.isDigit, Bool.and_eq_true, decide_eq_true_eq] at hdigit
    have hle : 48 ≤ c.toNat := hdigit.1
    have hge : c.toNat ≤ 57 := hdigit.2
    omega
  · decide

theorem isNumeric_of_isDigit {c : Char} (h : c.isDigit = true) : isNumeric c = true := by
  rw [isNumeric, h, Bool.true_or]

section layout

variable {c : Char} {cs : List Char} (hc : isNumeric c = true)
include hc

theorem isSpacing_eq_false : isSpacing c = false := by
  have hne := fun d => ne_of_isNumeric hc (d := d)
  simp [isSpacing, hne ' ' rfl, hne '\t' rfl, hne '\x0c' rfl]

theorem skipGap_cons (nested : Bool) : skipGap nested (c :: cs) = c :: cs := by
  have hne := fun d => ne_of_isNumeric hc (d := d)
  rw [skipGap, skipGap.go.eq_def]
  simp [isSpacing_eq_false hc, hne '\n' rfl, hne '#' rfl, hne '\\' rfl]

theorem skipBlankLines_cons : skipBlankLines (c :: cs) = some (c :: cs) := by
  have hne := fun d => ne_of_isNumeric hc (d := d)
  rw [skipBlankLines, skipBlankLines.go.eq_def]
  simp [isSpacing_eq_false hc, hne '\n' rfl, hne '#' rfl, hne '\x0c' rfl, hne '\\' rfl]

end layout

theorem unifyLines_eq {cs : List Char} (h : '\r' ∉ cs) : unifyLines cs = cs := by
  fun_induction unifyLines cs with
  | case1 => rfl
  | case2 rest ih => simp at h
  | case3 c rest hne ih =>
      rw [List.mem_cons, not_or] at h
      rw [ih h.2, if_neg (Ne.symm h.1)]

section tokens

variable {f : List Char → Except Trouble Nat} {n : Nat}

theorem token_digits (hn : n < Nat.pow 10 Numeral.maxDigits) :
    token f [] (Nat.toDigits 10 n) = (.number (.integer n), [], []) := by
  have hread := Number.read_toDigits hn
  obtain ⟨c, cs, hcs, hc, -⟩ := Number.toDigits_cases n
  rw [hcs] at hread ⊢
  unfold token
  rw [if_pos (Number.startsHere_cons hc cs), hread]

theorem token_minus {c : Char} (hc : c.isDigit = true) (cs : List Char) :
    token f [] ('-' :: c :: cs) = (.mark "-", c :: cs, []) := by
  have hequals : ('=' == c) = false := beq_eq_false_iff_ne.2 (by rintro rfl; cases hc)
  have hgreater : ('>' == c) = false := beq_eq_false_iff_ne.2 (by rintro rfl; cases hc)
  have hmark : marks.find? (·.toList.isPrefixOf ('-' :: c :: cs)) = some "-" := by
    simp [marks, List.find?, List.isPrefixOf, hequals, hgreater]
  have hdelimiter : delimiter? ('-' :: c :: cs) = none := rfl
  unfold token
  rw [if_neg (fun h => by cases h), hdelimiter, hmark]
  rfl

theorem tokens_go_nil (fuel : Nat) (taken : List Token) :
    tokens.go f fuel [] taken [] = taken.reverse := by
  rw [tokens.go.eq_def]
  cases fuel <;> rfl

theorem tokens_go_cons {c : Char} {cs rest : List Char} {t : Token} (hc : isNumeric c = true)
    (ht : token f [] (c :: cs) = (t, rest, [])) (fuel : Nat) (taken : List Token) :
    tokens.go f (fuel + 1) [] taken (c :: cs) =
      tokens.go f fuel [] (t :: taken) rest := by
  have hne := fun d => ne_of_isNumeric hc (d := d)
  rw [tokens.go.eq_def]
  simp [skipGap_cons hc, hne '\n' rfl, hne '#' rfl, ht]

theorem tokens_digits (hn : n < Nat.pow 10 Numeral.maxDigits) :
    tokens f (Nat.toDigits 10 n) = [.number (.integer n)] := by
  have htoken := token_digits (f := f) hn
  obtain ⟨c, cs, hcs, hc, -⟩ := Number.toDigits_cases n
  rw [hcs] at htoken ⊢
  rw [tokens, tokens_go_cons (isNumeric_of_isDigit hc) htoken, tokens_go_nil]
  rfl

theorem tokens_minus (hn : n < Nat.pow 10 Numeral.maxDigits) :
    tokens f ('-' :: Nat.toDigits 10 n) = [.mark "-", .number (.integer n)] := by
  have htoken := token_digits (f := f) hn
  obtain ⟨c, cs, hcs, hc, -⟩ := Number.toDigits_cases n
  rw [hcs] at htoken ⊢
  rw [tokens, tokens_go_cons rfl (token_minus hc cs), List.length_cons,
    tokens_go_cons (isNumeric_of_isDigit hc) htoken, tokens_go_nil]
  rfl

end tokens

/-! ### Phrases

A phrase that takes all the tokens is also a phrase of every looser kind. -/

namespace Rule

variable {inner : Inner} {ts : List Token} {e : Expression}

theorem joined_of_operand {word : String} {p : Phrase} (h : inner 0 p ts = .ok (e, [])) :
    joined inner word p ts = .ok (e, []) := by
  show Except.bind (inner 0 p ts) _ = _
  rw [h]
  rfl

theorem inversion_of_comparison (hnot : Reader.accept "not" ts = .ok (false, ts))
    (h : inner 0 .comparison ts = .ok (e, [])) : inversion inner ts = .ok (e, []) := by
  show Except.bind (Reader.accept "not" ts) _ = _
  rw [hnot]
  exact h

theorem comparison_of_operand (h : inner 0 (.operation .disjoin) ts = .ok (e, [])) :
    comparison inner ts = .ok (e, []) := by
  show Except.bind (inner 0 (.operation .disjoin) ts) _ = _
  rw [h]
  rfl

theorem operation_of_operand {t : Tier} (h : inner 1 t.operand ts = .ok (e, [])) :
    operation inner t ts = .ok (e, []) := by
  show Except.bind (inner 1 t.operand ts) _ = _
  rw [h]
  rfl

theorem factor_minus (h : inner 0 .factor ts = .ok (e, [])) :
    factor inner (.mark "-" :: ts) = .ok (signed true e, []) := by
  have haccept : Reader.acceptOne ["+", "-", "~"] (.mark "-" :: ts) = .ok (some "-", ts) := rfl
  unfold factor
  simp [bind, StateT.bind, Except.bind, haccept, h]
  rfl

theorem choice_of_disjunction {again : Nat} (hlambda : Reader.accept "lambda" ts = .ok (false, ts))
    (h : inner again .disjunction ts = .ok (e, [])) : choice inner again ts = .ok (e, []) := by
  show Except.bind (Reader.accept "lambda" ts) _ = _
  rw [hlambda]
  show Except.bind (inner again .disjunction ts) _ = _
  rw [h]
  rfl

end Rule

section read

variable {room : Nat} {ts : List Token} {e : Expression} {n : Int}

/-- Tokens that make an operand of a tier make an operation of it. -/
theorem read_operation (t : Tier) (h : read 0 room t.operand ts = .ok (e, [])) :
    read 0 (room + 2) (.operation t) ts = .ok (e, []) := by
  rw [read, Phrase.rule]
  apply Rule.operation_of_operand
  exact h

/-- Tokens that make one factor make an expression. -/
theorem read_expression (hlambda : Reader.accept "lambda" ts = .ok (false, ts))
    (hnot : Reader.accept "not" ts = .ok (false, ts)) (h : read 0 room .factor ts = .ok (e, [])) :
    read 0 (room + 17) .expression ts = .ok (e, []) := by
  have hoperation : read 0 (room + 12) (.operation .disjoin) ts = .ok (e, []) :=
    read_operation .disjoin <| read_operation .differ <| read_operation .conjoin <|
      read_operation .shift <| read_operation .add <| read_operation .multiply h
  have hcomparison : read 0 (room + 13) .comparison ts = .ok (e, []) := by
    rw [read, Phrase.rule]
    apply Rule.comparison_of_operand
    exact hoperation
  have hinversion : read 0 (room + 14) .inversion ts = .ok (e, []) := by
    rw [read, Phrase.rule]
    apply Rule.inversion_of_comparison hnot
    exact hcomparison
  have hconjunction : read 0 (room + 15) .conjunction ts = .ok (e, []) := by
    rw [read, Phrase.rule]
    apply Rule.joined_of_operand
    exact hinversion
  have hdisjunction : read 0 (room + 16) .disjunction ts = .ok (e, []) := by
    rw [read, Phrase.rule]
    apply Rule.joined_of_operand
    exact hconjunction
  rw [read, Phrase.rule]
  apply Rule.choice_of_disjunction hlambda
  exact hdisjunction

theorem read_number (number : Number) (room : Nat) : read 0 (room + 6) .factor [.number number] =
    .ok ({ form := .number number false }, []) := by
  have hatom : read 0 (room + 1) .atom [.number number] =
      .ok ({ form := .number number false }, []) := by
    rw [read]
    rfl
  have hprimary : read 0 (room + 3) .primary [.number number] =
      .ok ({ form := .number number false }, []) := by
    rw [read]
    show Except.bind (read 0 (room + 1) .atom [.number number]) _ = _
    rw [hatom]
    rfl
  have hawaited : read 0 (room + 4) .awaited [.number number] =
      .ok ({ form := .number number false }, []) := by
    rw [read]
    exact hprimary
  have hpower : read 0 (room + 5) .power [.number number] =
      .ok ({ form := .number number false }, []) := by
    rw [read]
    show Except.bind (read 0 (room + 4) .awaited [.number number]) _ = _
    rw [hawaited]
    rfl
  rw [read]
  exact hpower

theorem read_minus (number : Number) (room : Nat) :
    read 0 (room + 7) .factor [.mark "-", .number number] =
      .ok (signed true { form := .number number false }, []) := by
  rw [read, Phrase.rule]
  apply Rule.factor_minus
  exact read_number number room

theorem ofText_of_tokens {cs : List Char}
    (htext : skipBlankLines (unifyLines cs) = some cs)
    (htokens : tokens (heightOfField maxTemplates) cs = ts)
    (hlambda : Reader.accept "lambda" ts = .ok (false, ts))
    (hnot : Reader.accept "not" ts = .ok (false, ts))
    (h : ∀ room, read 0 (room + 7) .factor ts = .ok (e, [])) : ofText cs = .ok e := by
  have hread : read 0 (maxRoom - 2) .expression ts = .ok (e, []) :=
    read_expression hlambda hnot (h 5974)
  have honce : readAll.once whole ts 0 = .ok e := by
    have hwhole : whole 0 ts = .ok (e, []) := by
      show Except.bind (read 0 (maxRoom - 2) .expression ts) _ = _
      rw [hread]
      rfl
    unfold readAll.once
    rw [hwhole]
  unfold ofText
  rw [htext]
  show readAll whole (tokens _ cs) = _
  rw [htokens]
  unfold readAll
  rw [honce]

end read

/-! ### Numerals -/

theorem toList_toString (n : Int) : (toString n).toList =
    if 0 ≤ n then Nat.toDigits 10 n.natAbs else '-' :: Nat.toDigits 10 n.natAbs := by
  rw [Int.toString_eq_repr, Int.repr_eq_if]
  split
  · next h =>
      rw [Nat.toList_repr, show n.toNat = n.natAbs by omega]
  · next h =>
      rw [String.toList_append, Nat.toList_repr, show (-n).toNat = n.natAbs by omega]
      rfl

theorem isNumeric_toString (n : Int) : ∀ c ∈ (toString n).toList, isNumeric c = true := by
  have hdigits : ∀ c ∈ Nat.toDigits 10 n.natAbs, isNumeric c = true :=
    fun c hc => isNumeric_of_isDigit (Number.isDigit_toDigits _ c hc)
  rw [toList_toString]
  split
  · exact hdigits
  · rw [List.forall_mem_cons]
    exact ⟨rfl, hdigits⟩

theorem layout_toString (n : Int) :
    skipBlankLines (unifyLines (toString n).toList) = some (toString n).toList := by
  have hnumeric := isNumeric_toString n
  rw [unifyLines_eq fun h => by cases hnumeric _ h]
  have hne : (toString n).toList ≠ [] := by
    rw [toList_toString]
    split
    · exact Nat.toDigits_ne_nil
    · exact List.cons_ne_nil _ _
  obtain ⟨c, cs, hcs⟩ := List.exists_cons_of_ne_nil hne
  rw [hcs] at hnumeric ⊢
  exact skipBlankLines_cons (hnumeric c List.mem_cons_self)

/-- The numeral of an integer with few enough digits is an expression of that value. -/
theorem value_ofText (n : Int) (hn : n.natAbs < Nat.pow 10 Numeral.maxDigits) :
    (ofText (toString n).toList >>= value) = .ok (.int n) := by
  have hlayout := layout_toString n
  rw [toList_toString] at hlayout ⊢
  split at hlayout
  · next h =>
      rw [if_pos h, ofText_of_tokens hlayout (tokens_digits hn) rfl rfl
        fun room => read_number _ (room + 1)]
      show Except.ok (Config.Value.int n.natAbs) = _
      rw [Int.natAbs_of_nonneg h]
  · next h =>
      rw [if_neg h, ofText_of_tokens hlayout (tokens_minus hn) rfl rfl
        fun room => read_minus _ room]
      show Except.ok (Config.Value.int (-n.natAbs)) = _
      rw [Int.ofNat_natAbs_of_nonpos (by omega), Int.neg_neg]

end Expression

/-- A flag may be given any integer of few enough digits by its numeral. -/
theorem Literal.read_toString (n : Int) (hn : n.natAbs < Nat.pow 10 Numeral.maxDigits) :
    read (Bytes.ofString (toString n)) = .ok (.int n) := by
  have hbounds : ∀ c ∈ (toString n).toList, 0 < c.toNat ∧ c.toNat < 0x80 := fun c hc =>
    Expression.toNat_of_isNumeric (Expression.isNumeric_toString n c hc)
  have hascii := fun c hc => (hbounds c hc).2
  have hnull : (Bytes.ofString (toString n)).contains 0 = false := by
    rw [Utf8.ofString_of_ascii hascii, ← Bool.not_eq_true, List.contains_iff_mem, List.mem_map]
    rintro ⟨c, hc, hzero⟩
    have htoNat : c.toNat % 256 = 0 := by
      rw [← UInt8.toNat_ofNat', hzero]
      rfl
    have := hbounds c hc
    omega
  unfold read
  rw [Utf8.isWellFormed_ofString hascii, Utf8.decodeLenient_ofString hascii, hnull]
  dsimp only
  rw [Expression.value_ofText n hn]
  rfl

end OrderedJobs
