import OrderedJobs.Host.Output

/-! # Short and failing writes

What it takes to write some data, call by call.  A call that succeeds takes the next piece of the
data, as long as the output accepts or as is left (`Host.writeAll_cons`), so the number of calls is
known beforehand (`Host.callsFor`).  If none of them fails, the output has received all the data
after just that many; if one does, writing ends with its error, and the output has received the
pieces of the calls before it (`Host.writeAll_exact`). -/

namespace OrderedJobs

/-! ### Pieces -/

/-- The first pieces of some data, of `m` bytes each while there are so many. -/
def Bytes.pieces (m : Nat) : Nat → Bytes → List Bytes
  | 0, _ => []
  | n + 1, data => data.take m :: pieces m n (data.drop m)

theorem Bytes.flatten_pieces (m n : Nat) (data : Bytes) :
    (pieces m n data).flatten = data.take (n * m) := by
  induction n generalizing data with
  | zero => simp [pieces]
  | succ n ih => rw [pieces, List.flatten_cons, ih, Nat.succ_mul, Nat.add_comm, List.take_add]

namespace Host

variable {h : Host} {data : Bytes} {m w : Nat}

/-- The host after some calls to write, in which the output took these pieces. -/
def wrote (h : Host) (calls : Nat) (taken : List Bytes) : Host :=
  { h with accepted := taken.reverse ++ h.accepted, writeCalls := h.writeCalls + calls }

theorem output_wrote (h : Host) (calls : Nat) (taken : List Bytes) :
    (h.wrote calls taken).output = h.output ++ taken.flatten := by
  simp [output, wrote]

theorem wrote_wrote (h : Host) (calls calls' : Nat) (taken taken' : List Bytes) :
    (h.wrote calls taken).wrote calls' taken' = h.wrote (calls + calls') (taken ++ taken') := by
  simp [wrote, Nat.add_assoc]

/-- The most bytes that one write of some data takes. -/
def stride (h : Host) (data : Bytes) : Nat :=
  match h.platform.faults.writeCap with
  | none => data.length
  | some cap => cap

/-- The number of calls that it takes to write some data. -/
def callsFor (h : Host) (data : Bytes) : Nat :=
  match h.platform.faults.writeCap with
  | none => if data = [] then 0 else 1
  | some cap => (data.length + cap - 1) / cap

/-- The error of a call to write, counted from the next one. -/
def writeError? (h : Host) (n : Nat) : Option OsError :=
  h.platform.faults.write.error? (h.writeCalls + n)

/-! ### One call -/

theorem writeAll_nil (h : Host) : writeAll [] h = (.ok (), h) := by
  rw [writeAll, dif_pos rfl]

theorem writeAll_of_error {e : OsError} (hd : data ≠ []) (he : h.writeError? 0 = some e) :
    writeAll data h = (.error e, h.wrote 1 []) := by
  have hwrite : h.write data = (.error e, h.wrote 1 []) := by
    unfold write
    rw [show h.platform.faults.write.error? h.writeCalls = some e from he]
    rfl
  rw [writeAll, dif_neg hd]
  split
  · next e' h' heq =>
      rw [hwrite] at heq
      cases heq
      rfl
  · next n h' heq => rw [hwrite] at heq; cases heq

/-- A call that succeeds takes the first piece, and leaves the rest to the calls after it. -/
theorem writeAll_cons (hd : data ≠ []) (hok : h.writeError? 0 = none)
    (htakes : h.takes data = data.take m) :
    writeAll data h = writeAll (data.drop m) (h.wrote 1 [data.take m]) := by
  have hwrite : h.write data = (.ok (data.take m).length, h.wrote 1 [data.take m]) := by
    unfold write
    rw [show h.platform.faults.write.error? h.writeCalls = none from hok, htakes]
    rfl
  have hdrop : data.drop (data.take m).length = data.drop m := by
    rw [List.length_take]
    rcases Nat.le_total m data.length with hle | hle
    · rw [Nat.min_eq_left hle]
    · rw [Nat.min_eq_right hle, List.drop_length, List.drop_eq_nil_of_le hle]
  rw [writeAll, dif_neg hd]
  split
  · next e h' heq => rw [hwrite] at heq; cases heq
  · next n h' heq =>
      rw [hwrite] at heq
      cases heq
      rw [hdrop]

/-! ### All calls -/

/-- Every write takes the first `m` bytes of what is left of the data, and that takes `w` calls: one
fewer would leave something. -/
structure Paced (h : Host) (data : Bytes) (m w : Nat) : Prop where
  takes : ∀ rest : Bytes, rest.length ≤ data.length → h.takes rest = rest.take m
  enough : data.length ≤ w * m
  needed : ∀ k, k < w → k * m < data.length

theorem paced (h : Host) (data : Bytes) : h.Paced data (h.stride data) (h.callsFor data) := by
  unfold stride callsFor
  cases hcap : h.platform.faults.writeCap with
  | none =>
      dsimp only
      have htakes : ∀ rest : Bytes, rest.length ≤ data.length →
          h.takes rest = rest.take data.length := by
        intro rest hle
        rw [Host.takes, hcap, List.take_of_length_le hle]
      by_cases hnil : data = []
      · exact ⟨htakes, by simp [hnil], by simp [hnil]⟩
      · have hpos := List.length_pos_iff.2 hnil
        rw [if_neg hnil]
        exact ⟨htakes, by simp, by simpa using hpos⟩
  | some cap =>
      dsimp only
      have hpos : 0 < cap.val := cap.property
      refine ⟨fun rest _ => by rw [Host.takes, hcap], ?_, fun k hk => ?_⟩
      · have hlt := Nat.lt_div_mul_add hpos (a := data.length + cap.val - 1)
        omega
      · have hle := (Nat.le_div_iff_mul_le hpos).1 (Nat.succ_le_of_lt hk)
        rw [Nat.succ_mul] at hle
        omega

namespace Paced

theorem ne_nil (hp : h.Paced data m (w + 1)) : data ≠ [] := by
  have hlt := hp.needed 0 (Nat.succ_pos w)
  exact List.length_pos_iff.1 (by omega)

theorem eq_nil (hp : h.Paced data m 0) : data = [] := by
  have hle := hp.enough
  exact List.eq_nil_of_length_eq_zero (by omega)

theorem next (hp : h.Paced data m (w + 1)) (taken : List Bytes) :
    (h.wrote 1 taken).Paced (data.drop m) m w where
  takes := by
    intro rest hle
    rw [List.length_drop] at hle
    exact hp.takes rest (by omega)
  enough := by
    have hle := hp.enough
    rw [Nat.succ_mul] at hle
    rw [List.length_drop]
    omega
  needed := by
    intro k hk
    have hlt := hp.needed (k + 1) (Nat.succ_lt_succ hk)
    rw [Nat.succ_mul] at hlt
    rw [List.length_drop]
    omega

end Paced

theorem writeError?_wrote (h : Host) (calls : Nat) (taken : List Bytes) (n : Nat) :
    (h.wrote calls taken).writeError? n = h.writeError? (calls + n) := by
  unfold writeError? wrote
  rw [Nat.add_assoc]

/-- At most one call fails. -/
theorem writeError?_before (h : Host) {k n : Nat} {e : OsError} (he : h.writeError? n = some e)
    (hk : k < n) : h.writeError? k = none := by
  unfold writeError? FaultAt.error? at *
  split at he
  · split at he
    · rw [if_neg (by omega)]
    · cases he
  · rfl

/-- As long as no call fails, writing goes on with the data after the pieces taken so far. -/
theorem Paced.writeAll_drop (hp : h.Paced data m w) {n : Nat} (hn : n ≤ w)
    (hok : ∀ k < n, h.writeError? k = none) :
    writeAll data h = writeAll (data.drop (n * m)) (h.wrote n (Bytes.pieces m n data)) ∧
      (h.wrote n (Bytes.pieces m n data)).Paced (data.drop (n * m)) m (w - n) := by
  induction n generalizing h data w with
  | zero => simpa [wrote, Bytes.pieces] using hp
  | succ n ih =>
      obtain ⟨w, rfl⟩ := Nat.exists_eq_add_of_le' (Nat.le_trans (Nat.succ_pos n) hn)
      have hcons :=
        writeAll_cons hp.ne_nil (hok 0 (Nat.succ_pos n)) (hp.takes data (Nat.le_refl _))
      have hrest_ok : ∀ k < n, (h.wrote 1 [data.take m]).writeError? k = none := fun k hk => by
        rw [writeError?_wrote]
        exact hok (1 + k) (by omega)
      obtain ⟨hrest, hpaced⟩ := ih (hp.next [data.take m]) (Nat.le_of_succ_le_succ hn) hrest_ok
      rw [wrote_wrote, List.drop_drop, Nat.add_comm 1 n, Nat.add_comm m, ← Nat.succ_mul]
        at hrest hpaced
      rw [Nat.succ_sub_succ]
      exact ⟨hcons.trans hrest, hpaced⟩

/-- Writing some data, call by call.  If none of the calls that it takes fails, it succeeds after
just that many, and the output has received all the data, piece by piece.  If one of them fails, it
fails with the error of that call, makes no other call after it, and the output has received the
pieces of the calls before.  Nothing else changes. -/
theorem writeAll_exact (data : Bytes) (h : Host) :
    let m := h.stride data
    let w := h.callsFor data
    let pieces n := Bytes.pieces m n data
    ((∀ k < w, h.writeError? k = none) →
      writeAll data h = (.ok (), h.wrote w (pieces w)) ∧
      (h.wrote w (pieces w)).output = h.output ++ data) ∧
    ∀ n e, n < w → h.writeError? n = some e →
      writeAll data h = (.error e, h.wrote (n + 1) (pieces n)) ∧
      (h.wrote (n + 1) (pieces n)).output = h.output ++ data.take (n * m) := by
  intro m w pieces
  have hpaced := h.paced data
  constructor
  · intro hok
    obtain ⟨heq, hrest⟩ := hpaced.writeAll_drop (Nat.le_refl w) hok
    rw [Nat.sub_self] at hrest
    rw [hrest.eq_nil, writeAll_nil] at heq
    refine ⟨heq, ?_⟩
    rw [output_wrote, Bytes.flatten_pieces, List.take_of_length_le hpaced.enough]
  · intro n e hn he
    have hbefore : ∀ k < n, h.writeError? k = none := by
      intro k hk
      exact h.writeError?_before he hk
    obtain ⟨heq, hrest⟩ := hpaced.writeAll_drop (Nat.le_of_lt hn) hbefore
    obtain ⟨v, hv⟩ := Nat.exists_eq_add_of_le' (Nat.sub_pos_of_lt hn)
    rw [hv] at hrest
    rw [writeAll_of_error hrest.ne_nil ((h.writeError?_wrote n _ 0).trans he), wrote_wrote,
      List.append_nil] at heq
    refine ⟨heq, ?_⟩
    rw [output_wrote, Bytes.flatten_pieces]

/-- Five bytes in writes of two: the third fails, as the fifth that this host makes.  Made again,
all three succeed. -/
theorem writeAll_exact_third_fails :
    let full : OsError := ⟨28, "No space left on device"⟩
    let h : Host :=
      { platform := { faults := { writeCap := some ⟨2, by decide⟩, write := some (4, full) } }
        writeCalls := 2 }
    let h' := h.wrote 3 [[0x61, 0x62], [0x63, 0x64]]
    let data : Bytes := [0x61, 0x62, 0x63, 0x64, 0x65]
    ((2 < h.callsFor data ∧ h.writeError? 2 = some full) ∧
      writeAll data h = (.error full, h') ∧ h'.output = [0x61, 0x62, 0x63, 0x64]) ∧
    (∀ k < h'.callsFor data, h'.writeError? k = none) ∧
      writeAll data h' = (.ok (), h'.wrote 3 [[0x61, 0x62], [0x63, 0x64], [0x65]]) := by
  intro full h h' data
  have hcalls : 2 < h.callsFor data := by decide
  have herror : h.writeError? 2 = some full := by decide
  have hspared : ∀ k < h'.callsFor data, h'.writeError? k = none := by decide
  obtain ⟨hall, -⟩ := (writeAll_exact data h').1 hspared
  rw [show h'.callsFor data = 3 by decide] at hall
  exact ⟨⟨⟨hcalls, herror⟩, (writeAll_exact data h).2 2 full hcalls herror⟩, hspared, hall⟩

end Host

end OrderedJobs
