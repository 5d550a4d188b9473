import OrderedJobs.Host.Measure
import OrderedJobs.Proofs.Positions

/-! # What happens outside the parent

While the parent waits, and just after it has created a child, events happen to its children.  Seen
from the parent they are all of one kind (`Host.Later`): its own things stay as they are, the
children it knows stay the same children, their pipes only fill, they let go of their pipes and end
for good, and no end goes without a notice.

A wait is nothing but such events (`Host.poll_induction`): those of the rounds it consumes, and then
the ends that children come to by themselves. -/

namespace OrderedJobs

namespace Child

/-- The child can still write to its pipe. -/
def writing (c : Child) : Bool := c.held && c.status.isNone

/-- The `i`-th child after an event. -/
def undergo (i : Nat) (c : Child) : Event → Child
  | .data k bytes => if k = i ∧ c.writing then { c with waiting := c.waiting ++ bytes } else c
  | .close k => if k = i then { c with held := false } else c
  | .finish k status held =>
      if k = i ∧ c.status.isNone then { c with status := some status, held := c.held && held }
      else c
  | .wake _ => c

/-- What may have become of a child while the parent did nothing. -/
structure Later (c c' : Child) : Prop where
  pipe : c'.pipe = c.pipe
  command : c'.command = c.command
  passed : c'.passed = c.passed
  collected : c'.collected = c.collected
  waiting : ∃ more, c'.waiting = c.waiting ++ more ∧ (c.writing = false → more = [])
  held : c'.held = true → c.held = true
  status : ∀ s, c.status = some s → c'.status = some s

theorem Later.refl (c : Child) : c.Later c :=
  ⟨rfl, rfl, rfl, rfl, ⟨[], (List.append_nil _).symm, fun _ => rfl⟩, id, fun _ => id⟩

theorem writing_eq_true {c : Child} : c.writing = true ↔ c.held = true ∧ c.status = none := by
  unfold writing
  rw [Bool.and_eq_true, Option.isNone_iff_eq_none]

/-- Nothing is written to a pipe that nobody holds. -/
theorem writing_of_not_held {c : Child} (h : c.held = false) : c.writing = false := by
  unfold writing
  rw [h, Bool.false_and]

theorem Later.writing {c c' : Child} (h : c.Later c') (hw : c.writing = false) :
    c'.writing = false := by
  rw [← Bool.not_eq_true, writing_eq_true] at hw ⊢
  rintro ⟨hheld, hstatus⟩
  refine hw ⟨h.held hheld, ?_⟩
  cases hs : c.status with
  | none => rfl
  | some s => rw [h.status s hs] at hstatus; cases hstatus

theorem Later.trans {c d e : Child} (h : c.Later d) (k : d.Later e) : c.Later e where
  pipe := k.pipe.trans h.pipe
  command := k.command.trans h.command
  passed := k.passed.trans h.passed
  collected := k.collected.trans h.collected
  waiting := by
    obtain ⟨more, hmore, hnil⟩ := h.waiting
    obtain ⟨more', hmore', hnil'⟩ := k.waiting
    refine ⟨more ++ more', by rw [hmore', hmore, List.append_assoc], fun hw => ?_⟩
    rw [hnil hw, hnil' (h.writing hw), List.append_nil]
  held := fun he => h.held (k.held he)
  status := fun s hs => k.status s (h.status s hs)

theorem later_undergo (i : Nat) (c : Child) (e : Event) : c.Later (c.undergo i e) := by
  cases e with
  | data k bytes =>
      simp only [undergo]
      split
      · next h =>
          refine ⟨rfl, rfl, rfl, rfl, ⟨bytes, rfl, fun hw => ?_⟩, id, fun _ => id⟩
          rw [h.2] at hw
          cases hw
      · exact Later.refl c
  | close k =>
      simp only [undergo]
      split
      · exact ⟨rfl, rfl, rfl, rfl, ⟨[], (List.append_nil _).symm, fun _ => rfl⟩,
          fun h => by simp at h, fun _ => id⟩
      · exact Later.refl c
  | finish k status held =>
      simp only [undergo]
      split
      · next h =>
          refine ⟨rfl, rfl, rfl, rfl, ⟨[], (List.append_nil _).symm, fun _ => rfl⟩, ?_, ?_⟩
          · intro he
            exact (Bool.and_eq_true _ _ ▸ he).1
          · intro s hs
            simp [hs] at h
      · exact Later.refl c
  | wake n => exact Later.refl c

end Child

namespace Host

variable {h h' : Host}

/-- The part of a host that only calls of the parent change. -/
def own (h : Host) : Host :=
  { h with rounds := [], deferred := [], children := [], notices := 0 }

/-- What may have become of a host while the parent did nothing. -/
structure Later (h h' : Host) : Prop where
  own : h'.own = h.own
  length : h'.children.length = h.children.length
  child : ∀ (i : Nat) (c : Child), h.children[i]? = some c →
    ∃ c', h'.children[i]? = some c' ∧ c.Later c'

namespace Later

theorem refl (h : Host) : h.Later h :=
  ⟨rfl, rfl, fun _ c hc => ⟨c, hc, Child.Later.refl c⟩⟩

theorem trans {h₁ h₂ h₃ : Host} (h : h₁.Later h₂) (k : h₂.Later h₃) : h₁.Later h₃ := by
  refine ⟨k.own.trans h.own, k.length.trans h.length, fun i c hc => ?_⟩
  obtain ⟨c', hc', hlater⟩ := h.child i c hc
  obtain ⟨c'', hc'', hlater'⟩ := k.child i c' hc'
  exact ⟨c'', hc'', hlater.trans hlater'⟩

variable (hl : h.Later h')
include hl

/-- What the parent's own part determines stays the same. -/
theorem keeps {α : Type} (f : Host → α) (hf : ∀ h : Host, f h.own = f h) : f h' = f h := by
  rw [← hf h', hl.own, hf]

theorem platform : h'.platform = h.platform := hl.keeps Host.platform fun _ => rfl
theorem pipes : h'.pipes = h.pipes := hl.keeps Host.pipes fun _ => rfl
theorem descriptors : h'.descriptors = h.descriptors := hl.keeps Host.descriptors fun _ => rfl
theorem misused : h'.misused = h.misused := hl.keeps Host.misused fun _ => rfl
theorem accepted : h'.accepted = h.accepted := hl.keeps Host.accepted fun _ => rfl
theorem wakeup : h'.wakeup = h.wakeup := hl.keeps Host.wakeup fun _ => rfl
theorem collections : h'.collections = h.collections := hl.keeps Host.collections fun _ => rfl

/-- A child of the later host, looked at from before. -/
theorem child_before {i : Nat} {c' : Child} (hc' : h'.children[i]? = some c') :
    ∃ c, h.children[i]? = some c ∧ c.Later c' := by
  have hlt : i < h.children.length := hl.length ▸ (List.getElem?_eq_some_iff.1 hc').1
  obtain ⟨d, hd, hlater⟩ := hl.child i _ (List.getElem?_eq_getElem hlt)
  rw [hc'] at hd
  cases hd
  exact ⟨_, List.getElem?_eq_getElem hlt, hlater⟩

theorem map_eq {β : Type} {f : Child → β} (hf : ∀ c c', c.Later c' → f c' = f c) :
    h'.children.map f = h.children.map f := by
  refine map_eq_of_getElem? hl.length fun i c' hc' => ?_
  obtain ⟨c, hc, hlc⟩ := hl.child_before hc'
  exact ⟨c, hc, hf c c' hlc⟩

end Later

/-! ### Events -/

theorem own_notify (h : Host) (n : Nat) : (h.notify n).own = h.own := by
  unfold notify
  split <;> rfl

theorem children_updateChild (h : Host) (i k : Nat) (f : Child → Child) :
    (h.updateChild i f).children[k]? = (h.children[k]?).map fun c => if i = k then f c else c := by
  rw [updateChild, List.getElem?_modify]
  rfl

theorem finishChild_eq {i : Nat} {c : Child} (hc : h.children[i]? = some c) (status : WaitStatus)
    (held : Bool) (hs : c.status = none) : h.finishChild i status held = (h.updateChild i
      fun c => { c with status := some status, held := c.held && held }).notify 1 := by
  unfold finishChild
  rw [hc]
  simp [hs]

theorem finishChild_eq_self {i : Nat} (status : WaitStatus) (held : Bool)
    (hs : ∀ c, h.children[i]? = some c → c.status ≠ none) : h.finishChild i status held = h := by
  unfold finishChild
  split
  · next c hc =>
      rw [if_neg]
      rw [Option.isNone_iff_eq_none]
      exact hs c hc
  · rfl

/-- What an event does to a host: it touches the child it is about. -/
theorem children_occur (h : Host) (e : Event) (k : Nat) :
    (h.occur e).children[k]? = (h.children[k]?).map fun c => c.undergo k e := by
  cases e with
  | data i bytes =>
      show (h.updateChild i _).children[k]? = _
      rw [children_updateChild]
      cases h.children[k]? with
      | none => rfl
      | some c => by_cases hik : i = k <;> simp [Child.undergo, Child.writing, hik]
  | close i =>
      show (h.updateChild i _).children[k]? = _
      rw [children_updateChild]
      rfl
  | finish i status held =>
      show (h.finishChild i status held).children[k]? = _
      cases hc : h.children[i]? with
      | none =>
          rw [finishChild_eq_self _ _ (by simp [hc])]
          by_cases hik : i = k
          · subst hik
            rw [hc]
            rfl
          · simp [Child.undergo, hik]
      | some c =>
          by_cases hs : c.status = none
          · rw [finishChild_eq hc _ _ hs, children_notify, children_updateChild]
            by_cases hik : i = k
            · subst hik
              rw [hc]
              simp [Child.undergo, hs]
            · simp [Child.undergo, hik]
          · rw [finishChild_eq_self _ _ (by simpa [hc] using hs)]
            by_cases hik : i = k
            · subst hik
              rw [hc]
              simp [Child.undergo, hs]
            · simp [Child.undergo, hik]
  | wake n =>
      show (h.notify n).children[k]? = _
      rw [children_notify]
      simp [Child.undergo]

theorem length_occur (h : Host) (e : Event) : (h.occur e).children.length = h.children.length := by
  have hiff : ∀ k, (h.occur e).children.length ≤ k ↔ h.children.length ≤ k := by
    intro k
    rw [← List.getElem?_eq_none_iff, ← List.getElem?_eq_none_iff, children_occur,
      Option.map_eq_none_iff]
  have h₁ := (hiff _).1 (Nat.le_refl _)
  have h₂ := (hiff _).2 (Nat.le_refl _)
  omega

theorem own_occur (h : Host) (e : Event) : (h.occur e).own = h.own := by
  cases e with
  | data i bytes => rfl
  | close i => rfl
  | finish i status held =>
      show (h.finishChild i status held).own = h.own
      unfold finishChild
      split
      · split
        · exact own_notify _ _
        · rfl
      · rfl
  | wake n => exact own_notify _ _

theorem later_occur (h : Host) (e : Event) : h.Later (h.occur e) := by
  refine ⟨h.own_occur e, h.length_occur e, fun i c hc => ⟨c.undergo i e, ?_, c.later_undergo i e⟩⟩
  rw [children_occur, hc]
  rfl

theorem later_foldl_occur (es : List Event) (h : Host) : h.Later (es.foldl occur h) := by
  induction es generalizing h with
  | nil => exact Later.refl h
  | cons e es ih => exact (h.later_occur e).trans (ih _)

theorem later_receive (h : Host) (e : Event) : h.Later (h.receive e) := by
  unfold receive
  split
  · exact h.later_occur e
  · exact ⟨rfl, rfl, fun _ c hc => ⟨c, hc, Child.Later.refl c⟩⟩

/-- A child that comes to its end by itself finishes and lets go of its pipe. -/
theorem settleChild_eq (h : Host) (i : Nat) :
    h.settleChild i = (h.occur (.finish i 0 false)).occur (.close i) := rfl

theorem later_settleChild (h : Host) (i : Nat) : h.Later (h.settleChild i) := by
  rw [settleChild_eq]
  exact (h.later_occur _).trans (later_occur _ _)

theorem later_awaitChildren (active : Option Nat) (is : List Nat) (h : Host) :
    h.Later (awaitChildren active is h) := by
  induction is generalizing h with
  | nil => exact Later.refl h
  | cons i is ih =>
      unfold awaitChildren
      split
      · exact Later.refl h
      · exact (h.later_settleChild i).trans (ih _)

/-! ### Waiting -/

section induction

variable {P : List Event → Host → Prop}

theorem foldl_receive_induction (hreceive : ∀ e es h, P (e :: es) h → P es (h.receive e))
    (round es : List Event) (h : Host) (hp : P (round ++ es) h) :
    P es (round.foldl receive h) := by
  induction round generalizing h with
  | nil => exact hp
  | cons e round ih => exact ih _ (hreceive e _ h hp)

/-- A wait consumes rounds, event by event, and lets children come to their end only when no event
is left. -/
theorem poll_induction (hrounds : ∀ es rounds h, P es h → P es { h with rounds := rounds })
    (hreceive : ∀ e es h, P (e :: es) h → P es (h.receive e))
    (hsettle : ∀ i h, P [] h → P [] (h.settleChild i)) (active : Option Nat) (h : Host)
    (hp : P (h.watch active).rounds.flatten (h.watch active)) :
    P (h.poll active).2.rounds.flatten (h.poll active).2 := by
  unfold poll
  dsimp only
  generalize h.watch active = h at hp ⊢
  have hnext : P h.nextRound.rounds.flatten h.nextRound := by
    unfold nextRound
    split
    · exact hp
    · next round rest heq =>
        rw [heq, List.flatten_cons] at hp
        rw [rounds_foldl_receive]
        exact foldl_receive_induction hreceive round _ _ (hrounds _ _ _ hp)
  have hawait : ∀ (rounds : List (List Event)) (h : Host), P rounds.flatten h →
      P (awaitRounds active rounds h).rounds.flatten (awaitRounds active rounds h) ∧
        ((awaitRounds active rounds h).rounds = [] ∨
          ((awaitRounds active rounds h).readiness active).any = true) := by
    intro rounds
    induction rounds with
    | nil =>
        intro h hp
        exact ⟨hrounds _ _ _ hp, .inl rfl⟩
    | cons round rest ih =>
        intro h hp
        unfold awaitRounds
        split
        · next hready => exact ⟨hrounds _ _ _ hp, .inr hready⟩
        · exact ih _ (foldl_receive_induction hreceive round _ _ hp)
  have hchildren : ∀ (is : List Nat) (h : Host), P [] h → P [] (awaitChildren active is h) := by
    intro is
    induction is with
    | nil => exact fun h hp => hp
    | cons i is ih =>
        intro h hp
        unfold awaitChildren
        split
        · exact hp
        · exact ih _ (hsettle i h hp)
  obtain ⟨hpr, hend⟩ := hawait h.nextRound.rounds h.nextRound hnext
  generalize awaitRounds active h.nextRound.rounds h.nextRound = h₁ at hpr hend
  rw [rounds_awaitChildren]
  rcases hend with hnil | hready
  · rw [hnil] at hpr ⊢
    exact hchildren _ _ hpr
  · have hsame : awaitChildren active h₁.unsettledChildren h₁ = h₁ := by
      cases h₁.unsettledChildren with
      | nil => rfl
      | cons i is =>
          unfold awaitChildren
          rw [if_pos hready]
    rw [hsame]
    exact hpr

end induction

theorem later_watch (active : Option Nat) (h : Host) :
    (h.watch active).Later (h.poll active).2 := by
  refine poll_induction (P := fun _ h' => (h.watch active).Later h') ?_ ?_ ?_ active h
    (Later.refl _)
  · intro es rounds h' hl
    exact ⟨hl.own, hl.length, hl.child⟩
  · intro e es h' hl
    exact hl.trans (later_receive h' e)
  · intro i h' hl
    exact hl.trans (later_settleChild h' i)

theorem later_poll (active : Option Nat) (h : Host) (hwatch : h.watch active = h) :
    h.Later (h.poll active).2 := by
  have hlater := later_watch active h
  rwa [hwatch] at hlater

end Host

end OrderedJobs
