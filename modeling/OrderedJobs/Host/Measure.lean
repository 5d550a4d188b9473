import OrderedJobs.Host.Poll

/-! # What is left to happen

Three numbers bound what a host may still do: the rounds to come, the children that are not
settled, and the bytes and notices that are unread.  A wait uses up a round; without a round left it
settles a child, or finds something ready at once (`poll_progress`). -/

namespace OrderedJobs

/-- The sum of a number over a list. -/
def tally {α : Type} (g : α → Nat) : List α → Nat
  | [] => 0
  | x :: l => g x + tally g l

theorem tally_modify {α : Type} (g : α → Nat) (f : α → α) {l : List α} {i : Nat} {x : α}
    (h : l[i]? = some x) : tally g (l.modify i f) + g x = tally g l + g (f x) := by
  induction l generalizing i with
  | nil => simp at h
  | cons y l ih =>
    cases i with
    | zero =>
      simp only [List.getElem?_cons_zero, Option.some.injEq] at h
      subst h
      simp only [tally, List.modify_zero_cons]
      omega
    | succ i =>
      simp only [List.getElem?_cons_succ] at h
      have := ih h
      simp only [tally, List.modify_succ_cons]
      omega

theorem tally_modify_eq {α : Type} (g : α → Nat) (f : α → α) (hf : ∀ x, g (f x) = g x)
    (l : List α) (i : Nat) : tally g (l.modify i f) = tally g l := by
  cases h : l[i]? with
  | none =>
    rw [List.modify_eq_self]
    exact List.getElem?_eq_none_iff.1 h
  | some x =>
    have := tally_modify g f h
    rw [hf x] at this
    omega

namespace Host

/-- The children that are not settled. -/
def unsettled (h : Host) : Nat := tally (fun c => c.unsettled.toNat) h.children

/-- The bytes that wait in pipes, and the notices that wait. -/
def unread (h : Host) : Nat := tally (fun c => c.waiting.length) h.children + h.notices

/-! ### What calls leave alone -/

/-- A write changes nothing but the output. -/
theorem write_frame (h : Host) (data : Bytes) :
    ∃ accepted calls, (h.write data).2 = { h with accepted := accepted, writeCalls := calls } := by
  unfold write
  dsimp only
  split
  · exact ⟨h.accepted, _, rfl⟩
  · exact ⟨_, _, rfl⟩

/-- Nor do several. -/
theorem writeAll_frame (data : Bytes) (h : Host) :
    ∃ accepted calls,
      (writeAll data h).2 = { h with accepted := accepted, writeCalls := calls } := by
  fun_induction writeAll data h with
  | case1 => exact ⟨_, _, rfl⟩
  | case2 data h _ e h' hw =>
    obtain ⟨accepted, calls, hframe⟩ := h.write_frame data
    rw [hw] at hframe
    exact ⟨accepted, calls, hframe⟩
  | case3 data h _ n h' hw ih =>
    obtain ⟨accepted, calls, ih⟩ := ih
    obtain ⟨accepted', calls', hframe⟩ := h.write_frame data
    rw [hw] at hframe
    rw [ih, show h' = _ from hframe]
    exact ⟨_, _, rfl⟩

theorem rounds_notify (h : Host) (n : Nat) : (h.notify n).rounds = h.rounds := by
  unfold notify; split <;> rfl

theorem children_notify (h : Host) (n : Nat) : (h.notify n).children = h.children := by
  unfold notify; split <;> rfl

theorem rounds_finishChild (h : Host) (i : Nat) (status : WaitStatus) (held : Bool) :
    (h.finishChild i status held).rounds = h.rounds := by
  unfold finishChild
  split
  · split
    · exact rounds_notify _ _
    · rfl
  · rfl

theorem rounds_receive (h : Host) (e : Event) : (h.receive e).rounds = h.rounds := by
  unfold receive
  split
  · cases e with
    | data i bytes => rfl
    | close i => rfl
    | finish i status held => exact rounds_finishChild _ _ _ _
    | wake n => exact rounds_notify _ _
  · rfl

theorem rounds_foldl_receive (es : List Event) (h : Host) :
    (es.foldl receive h).rounds = h.rounds := by
  induction es generalizing h with
  | nil => rfl
  | cons e es ih => rw [List.foldl_cons, ih, rounds_receive]

theorem rounds_settleChild (h : Host) (i : Nat) : (h.settleChild i).rounds = h.rounds :=
  rounds_finishChild _ _ _ _

theorem rounds_awaitChildren (active : Option Nat) (is : List Nat) (h : Host) :
    (awaitChildren active is h).rounds = h.rounds := by
  induction is generalizing h with
  | nil => rfl
  | cons i is ih =>
    unfold awaitChildren
    split
    · rfl
    · rw [ih, rounds_settleChild]

theorem length_awaitRounds (active : Option Nat) (rs : List (List Event)) (h : Host) :
    (awaitRounds active rs h).rounds.length ≤ rs.length := by
  induction rs generalizing h with
  | nil => exact Nat.le_refl _
  | cons r rs ih =>
    unfold awaitRounds
    split
    · exact Nat.le_refl _
    · exact Nat.le_succ_of_le (ih _)

/-! ### Settling children -/

/-- Settling a child leaves one less to settle, or nothing was left of it. -/
theorem settleChild_progress (h : Host) (i : Nat) :
    (h.settleChild i).unsettled < h.unsettled ∨
      (h.settleChild i).unsettled = h.unsettled ∧ (h.settleChild i).unread = h.unread := by
  unfold settleChild finishChild
  split
  · next c hc =>
    have hmod : ∀ (h' : Host) (f : Child → Child), h'.children = h.children →
        (f c).unsettled = false →
          (h'.updateChild i f).unsettled + c.unsettled.toNat = h.unsettled := by
      intro h' f hh hf
      have := tally_modify (fun c : Child => c.unsettled.toNat) f hc
      simp only [hf, Bool.toNat_false, Nat.add_zero] at this
      unfold unsettled updateChild
      rw [hh]
      exact this
    by_cases hs : c.status.isNone
    · left
      have hu : c.unsettled = true := by simp [Child.unsettled, hs]
      have hcomp : ((h.updateChild i fun c => { c with
          status := some 0, held := c.held && false }).notify 1).updateChild i
            (fun c => { c with held := false }) =
          (({ h with notices := (h.notify 1).notices } : Host).updateChild i fun c =>
            { c with status := some 0, held := false }) := by
        unfold notify updateChild
        simp only [apply_ite]
        split <;> simp_all [List.modify_modify_eq, Function.comp_def]
      rw [if_pos hs, hcomp]
      have := hmod { h with notices := (h.notify 1).notices }
        (fun c => { c with status := some 0, held := false }) rfl (by simp [Child.unsettled])
      rw [hu] at this
      simp only [Bool.toNat_true] at this
      omega
    · rw [if_neg hs]
      have := hmod h (fun c => { c with held := false }) rfl (by
        show (false || c.status.isNone) = false
        rw [Bool.false_or]
        exact Bool.eq_false_iff.2 hs)
      cases hu : c.unsettled with
      | true =>
        rw [hu] at this
        simp only [Bool.toNat_true] at this
        omega
      | false =>
        rw [hu] at this
        simp only [Bool.toNat_false] at this
        refine .inr ⟨by omega, ?_⟩
        unfold unread updateChild
        simp only
        rw [tally_modify_eq (fun c : Child => c.waiting.length)
          (fun c => { c with held := false }) (fun _ => rfl)]
  · next hc =>
    right
    have : h.children.length ≤ i := List.getElem?_eq_none_iff.1 hc
    unfold updateChild unsettled unread
    rw [List.modify_eq_self this]
    exact ⟨rfl, rfl⟩

theorem awaitChildren_progress (active : Option Nat) (is : List Nat) (h : Host) :
    (awaitChildren active is h).unsettled < h.unsettled ∨
      (awaitChildren active is h).unsettled = h.unsettled ∧
        (awaitChildren active is h).unread = h.unread := by
  induction is generalizing h with
  | nil => exact .inr ⟨rfl, rfl⟩
  | cons i is ih =>
    unfold awaitChildren
    split
    · exact .inr ⟨rfl, rfl⟩
    · have h₁ := settleChild_progress h i
      have h₂ := ih (h.settleChild i)
      omega

/-- A wait uses up a round; without any round left, it settles a child or leaves all as it is. -/
theorem poll_progress (active : Option Nat) (h : Host) :
    (h.poll active).2.rounds.length < h.rounds.length ∨
      (h.poll active).2.rounds.length = h.rounds.length ∧
        ((h.poll active).2.unsettled < h.unsettled ∨
          (h.poll active).2.unsettled = h.unsettled ∧ (h.poll active).2.unread = h.unread) := by
  obtain ⟨misused, hm⟩ := h.watch_frame active
  unfold poll
  rw [hm]
  change (_ < ({ h with misused := misused } : Host).rounds.length) ∨
    (_ = ({ h with misused := misused } : Host).rounds.length ∧
      (_ < ({ h with misused := misused } : Host).unsettled ∨
        _ = ({ h with misused := misused } : Host).unsettled ∧
          _ = ({ h with misused := misused } : Host).unread))
  generalize ({ h with misused := misused } : Host) = h
  simp only [rounds_awaitChildren]
  cases hr : h.rounds with
  | nil =>
    right
    have hn : h.nextRound = h := by unfold nextRound; rw [hr]
    have ha : awaitRounds active h.rounds h = h := by
      rw [hr]
      show ({ h with rounds := [] } : Host) = h
      rw [← hr]
    rw [hn, ha]
    refine ⟨by rw [hr], ?_⟩
    exact awaitChildren_progress active _ h
  | cons r rs =>
    left
    have hn : h.nextRound.rounds = rs := by
      unfold nextRound
      rw [hr]
      exact rounds_foldl_receive _ _
    have := length_awaitRounds active h.nextRound.rounds h.nextRound
    rw [hn] at this ⊢
    simp only [List.length_cons]
    omega

end Host

end OrderedJobs
