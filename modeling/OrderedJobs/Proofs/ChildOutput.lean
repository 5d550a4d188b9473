import OrderedJobs.Proofs.Handling

/-! # What becomes of a child

What a child will have written in the end, and how it will have ended, is settled by its own history
alone: by what it did on its way to its command, and by its own events among those to come, up to
the first that closes its pipe or ends it (`Child.fate`, `status_foldl_undergo`).  Neither an event
nor anything the parent does changes it.  So if it is right for a child that is just born, it stays
right (`Host.Promises`), even though events for children that are not born yet have to be kept. -/

namespace OrderedJobs

namespace Event

/-- The bytes that the `i`-th child writes by some events. -/
def said (i : Nat) : List Event → Bytes
  | [] => []
  | .data k bytes :: rest => (if k = i then bytes else []) ++ said i rest
  | .close k :: rest => if k = i then [] else said i rest
  | .finish k _ _ :: rest => if k = i then [] else said i rest
  | .wake _ :: rest => said i rest

variable {i : Nat} {e : Event} {es fs : List Event}

theorem said_cons_of_ne (h : e.child? ≠ some i) (es : List Event) :
    said i (e :: es) = said i es := by
  cases e with
  | data k bytes =>
      have hne : ¬ k = i := fun heq => h (congrArg some heq)
      rw [said, if_neg hne, List.nil_append]
  | close k =>
      have hne : ¬ k = i := fun heq => h (congrArg some heq)
      rw [said, if_neg hne]
  | finish k status held =>
      have hne : ¬ k = i := fun heq => h (congrArg some heq)
      rw [said, if_neg hne]
  | wake n => rfl

theorem said_cons_congr (e : Event) (h : said i es = said i fs) :
    said i (e :: es) = said i (e :: fs) := by
  cases e with
  | data k bytes => rw [said, said, h]
  | close k => rw [said, said, h]
  | finish k status held => rw [said, said, h]
  | wake n => exact h

/-- Only the events of the child itself count. -/
theorem said_filter_append (p : Event → Bool) (hp : ∀ e : Event, e.child? = some i → p e = true)
    (es fs : List Event) : said i (es.filter p ++ fs) = said i (es ++ fs) := by
  induction es with
  | nil => rfl
  | cons e es ih =>
      by_cases hkeep : p e = true
      · rw [List.filter_cons_of_pos hkeep]
        exact said_cons_congr e ih
      · rw [List.filter_cons_of_neg hkeep, List.cons_append,
          said_cons_of_ne (fun h => hkeep (hp e h)), ih]

/-- Events with the same subsequence for a child make it write the same. -/
theorem said_congr (h : es.filter (·.child? == some i) = fs.filter (·.child? == some i)) :
    said i es = said i fs := by
  have hes := said_filter_append (i := i) (·.child? == some i) (fun e he => by simp [he]) es []
  have hfs := said_filter_append (i := i) (·.child? == some i) (fun e he => by simp [he]) fs []
  rw [List.append_nil, List.append_nil] at hes hfs
  rw [← hes, ← hfs, h]

/-- The status with which an event ends the `i`-th child, if it does. -/
def endOf (i : Nat) : Event → Option WaitStatus
  | .finish k status _ => if k = i then some status else none
  | _ => none

/-- The status with which the `i`-th child ends by some events: that of the first that ends it. -/
def ending (i : Nat) (es : List Event) : Option WaitStatus := es.findSome? (endOf i)

end Event

namespace Child

open Event (said)

variable {i : Nat}

/-- All the bytes that the `i`-th child will have written after some events. -/
def fate (i : Nat) (es : List Event) (c : Child) : Bytes :=
  c.written ++ if c.writing then said i es else []

theorem undergo_of_ne {e : Event} (h : e.child? ≠ some i) (c : Child) : c.undergo i e = c := by
  cases e with
  | data k bytes =>
      have hne : ¬ k = i := fun heq => h (congrArg some heq)
      simp [undergo, hne]
  | close k =>
      have hne : ¬ k = i := fun heq => h (congrArg some heq)
      simp [undergo, hne]
  | finish k status held =>
      have hne : ¬ k = i := fun heq => h (congrArg some heq)
      simp [undergo, hne]
  | wake n => rfl

theorem fate_of_not_writing {c : Child} (h : c.writing = false) (es : List Event) :
    c.fate i es = c.written := by
  unfold fate
  rw [h]
  exact List.append_nil _

theorem fate_of_ne {e : Event} (h : e.child? ≠ some i) (c : Child) (es : List Event) :
    c.fate i (e :: es) = c.fate i es := by
  unfold fate
  rw [Event.said_cons_of_ne h]

/-- An event carries out a part of a child's fate. -/
theorem fate_undergo (i : Nat) (c : Child) (e : Event) (es : List Event) :
    (c.undergo i e).fate i es = c.fate i (e :: es) := by
  by_cases hne : e.child? = some i
  · cases e with
    | data k bytes =>
        cases hne
        cases hw : c.writing with
        | true =>
            have hw' : ({ c with waiting := c.waiting ++ bytes } : Child).writing = true := hw
            simp only [undergo, hw, and_self, if_true, fate, hw', said, written, List.append_assoc]
        | false =>
            have hsame : c.undergo i (.data i bytes) = c := by simp [undergo, hw]
            rw [hsame, fate_of_not_writing hw, fate_of_not_writing hw]
    | close k =>
        cases hne
        have hw : (c.undergo i (.close i)).writing = false := by simp [undergo, writing]
        rw [fate_of_not_writing hw]
        simp [undergo, fate, said, written]
    | finish k status held =>
        cases hne
        have hw : (c.undergo i (.finish i status held)).writing = false := by
          cases hs : c.status <;> simp [undergo, writing, hs]
        have hwritten : (c.undergo i (.finish i status held)).written = c.written := by
          cases hs : c.status <;> simp [undergo, written, hs]
        rw [fate_of_not_writing hw, hwritten]
        simp [fate, said]
    | wake n => cases hne
  · rw [undergo_of_ne hne, fate_of_ne hne]

theorem fate_foldl_undergo (i : Nat) (ds es : List Event) (c : Child) :
    (ds.foldl (undergo i) c).fate i es = c.fate i (ds ++ es) := by
  induction ds generalizing c with
  | nil => rfl
  | cons e ds ih =>
      rw [List.foldl_cons, ih, fate_undergo]
      rfl

/-- What a child has written after some events is its fate. -/
theorem written_foldl_undergo (i : Nat) (es : List Event) (c : Child) :
    (es.foldl (undergo i) c).written = c.fate i es := by
  have := fate_foldl_undergo i es [] c
  rw [List.append_nil] at this
  rw [← this]
  unfold fate
  simp [said]

theorem status_undergo (i : Nat) (c : Child) (e : Event) :
    (c.undergo i e).status = c.status.or (Event.endOf i e) := by
  cases e with
  | data k bytes =>
      simp only [undergo, Event.endOf, Option.or_none]
      split <;> rfl
  | close k =>
      simp only [undergo, Event.endOf, Option.or_none]
      split <;> rfl
  | finish k status held =>
      by_cases hk : k = i <;> cases hs : c.status <;> simp [undergo, Event.endOf, hk, hs]
  | wake n => simp [undergo, Event.endOf]

/-- A child ends by the first event that ends it, unless it has ended already. -/
theorem status_foldl_undergo (i : Nat) (es : List Event) (c : Child) :
    (es.foldl (undergo i) c).status = c.status.or (Event.ending i es) := by
  induction es generalizing c with
  | nil => exact (Option.or_none ..).symm
  | cons e es ih =>
      rw [List.foldl_cons, ih, status_undergo, Option.or_assoc]
      congr 1
      unfold Event.ending
      rw [List.findSome?_cons]
      cases Event.endOf i e <;> rfl

theorem command_foldl_undergo (i : Nat) (ds : List Event) (c : Child) :
    (ds.foldl (undergo i) c).command = c.command := by
  induction ds generalizing c with
  | nil => rfl
  | cons e ds ih =>
      rw [List.foldl_cons, ih]
      exact (c.later_undergo i e).command

theorem foldl_undergo_of_ne {ds : List Event} (h : ∀ e ∈ ds, e.child? ≠ some i) (c : Child) :
    ds.foldl (undergo i) c = c := by
  induction ds generalizing c with
  | nil => rfl
  | cons e ds ih =>
      rw [List.foldl_cons, undergo_of_ne (h e List.mem_cons_self)]
      exact ih (fun d hd => h d (List.mem_cons_of_mem _ hd)) c

/-- Only the events of the child itself count. -/
theorem foldl_undergo_filter (i : Nat) (es : List Event) (c : Child) :
    (es.filter (·.child? == some i)).foldl (undergo i) c = es.foldl (undergo i) c := by
  induction es generalizing c with
  | nil => rfl
  | cons e es ih =>
      by_cases he : e.child? = some i
      · rw [List.filter_cons_of_pos (by simp [he]), List.foldl_cons, List.foldl_cons, ih]
      · rw [List.filter_cons_of_neg (by simp [he]), List.foldl_cons, undergo_of_ne he, ih]

/-- Handling a child and what happens to it do not get in each other's way. -/
theorem Handled.undergo {c c' : Child} (h : c.Handled c') (i : Nat) (e : Event) :
    (c.undergo i e).Handled (c'.undergo i e) := by
  have hwriting := h.writing
  cases e with
  | data k bytes =>
      simp only [Child.undergo, hwriting]
      split
      · refine ⟨h.command, ?_, h.held, h.status, h.collected⟩
        have := congrArg (· ++ bytes) h.written
        simpa [Child.written] using this
      · exact h
  | close k =>
      simp only [Child.undergo]
      split
      · exact ⟨h.command, h.written, rfl, h.status, h.collected⟩
      · exact h
  | finish k status held =>
      simp only [Child.undergo, h.status]
      split
      · refine ⟨h.command, h.written, ?_, rfl, h.collected⟩
        show (c'.held && held) = (c.held && held)
        rw [h.held]
      · exact h
  | wake n => exact h

theorem Handled.foldl_undergo {c c' : Child} (h : c.Handled c') (i : Nat) (es : List Event) :
    (es.foldl (Child.undergo i) c).Handled (es.foldl (Child.undergo i) c') := by
  induction es generalizing c c' with
  | nil => exact h
  | cons e es ih => exact ih (h.undergo i e)

/-- A property of children that shows neither how the parent handles a child nor the end that a
child comes to by itself. -/
structure Lasting {α : Type} (f : Child → α) : Prop where
  handled : ∀ {c c' : Child}, c.Handled c' → f c' = f c
  finish : ∀ (i : Nat) (c : Child), f (c.undergo i (.finish i 0 false)) = f c
  close : ∀ (i : Nat) (c : Child), f (c.undergo i (.close i)) = f c

theorem lasting_written : Lasting written where
  handled := fun h => h.written
  finish := by
    intro i c
    cases hs : c.status <;> simp [undergo, written, hs]
  close := by simp [undergo, written]

/-- The status with which a child has ended, or will end if nothing ends it before. -/
def endsWith (c : Child) : WaitStatus := c.status.getD 0

theorem endsWith_foldl_undergo (i : Nat) (es : List Event) (c : Child) :
    (es.foldl (undergo i) c).endsWith = (c.status.or (Event.ending i es)).getD 0 := by
  rw [endsWith, status_foldl_undergo]

theorem lasting_endsWith : Lasting endsWith where
  handled := fun h => by rw [endsWith, h.status, endsWith]
  finish := by
    intro i c
    cases hs : c.status <;> simp [undergo, endsWith, hs]
  close := by simp [undergo, endsWith]

end Child

namespace Host

variable {α : Type} {f : Child → α} {h h' : Host} {B : Nat → Command → α} {script es : List Event}

/-- Once the events to come have happened, a property of every child will be what is said of it; and
the events kept for children to be born, with those to come, are all there are for them. -/
structure Promises (f : Child → α) (B : Nat → Command → α) (script es : List Event) (h : Host) :
    Prop where
  born : ∀ (i : Nat) (c : Child), h.children[i]? = some c →
    f (es.foldl (Child.undergo i) c) = B i c.command
  unborn : ∀ i, h.children.length ≤ i → (h.deferred ++ es).filter (·.child? == some i) =
    script.filter (·.child? == some i)

/-! ### While the parent waits -/

theorem deferred_occur (h : Host) (e : Event) : (h.occur e).deferred = h.deferred := by
  have hnotify : ∀ (h : Host) (n : Nat), (h.notify n).deferred = h.deferred := by
    intro h n
    unfold notify
    split <;> rfl
  cases e with
  | data i bytes => rfl
  | close i => rfl
  | finish i status held =>
      show (h.finishChild i status held).deferred = _
      unfold finishChild
      split
      · split
        · exact hnotify _ _
        · rfl
      · rfl
  | wake n => exact hnotify h n

theorem rounds_occur (h : Host) (e : Event) : (h.occur e).rounds = h.rounds := by
  cases e with
  | data i bytes => rfl
  | close i => rfl
  | finish i status held => exact rounds_finishChild _ _ _ _
  | wake n => exact rounds_notify _ _

theorem Promises.occur {e : Event} (hp : h.Promises f B script (e :: es))
    (he : e.child?.all (· < h.children.length) = true) : (h.occur e).Promises f B script es where
  born := by
    intro i c' hc'
    rw [children_occur] at hc'
    obtain ⟨c, hc, rfl⟩ := Option.map_eq_some_iff.1 hc'
    rw [(c.later_undergo i e).command]
    exact hp.born i c hc
  unborn := by
    intro i hi
    rw [length_occur] at hi
    have hdrop : (e :: es).filter (·.child? == some i) = es.filter (·.child? == some i) := by
      refine List.filter_cons_of_neg fun heq => ?_
      rw [eq_of_beq heq, Option.all_some, decide_eq_true_eq] at he
      omega
    rw [deferred_occur, ← hp.unborn i hi, List.filter_append, List.filter_append, hdrop]

theorem Promises.receive {e : Event} (hp : h.Promises f B script (e :: es)) :
    (h.receive e).Promises f B script es := by
  unfold Host.receive
  cases he : e.child?.all (· < h.children.length) with
  | true =>
      rw [if_pos rfl]
      exact hp.occur he
  | false =>
      rw [if_neg (by decide)]
      refine ⟨fun i c hc => ?_, fun i hi => ?_⟩
      · have hne : e.child? ≠ some i := by
          intro heq
          rw [heq, Option.all_some, decide_eq_false_iff_not] at he
          exact he (List.getElem?_eq_some_iff.1 hc).1
        have hborn := hp.born i c hc
        rw [List.foldl_cons, Child.undergo_of_ne hne] at hborn
        exact hborn
      · rw [← hp.unborn i hi]
        show ((h.deferred ++ [e]) ++ es).filter _ = _
        rw [List.append_assoc]
        rfl

/-- When no events are left, a child that comes to its end keeps its promise. -/
theorem Promises.settleChild (hf : Child.Lasting f) (hp : h.Promises f B script []) (i : Nat) :
    (h.settleChild i).Promises f B script [] := by
  have hquiet : ∀ (h : Host) (e : Event), h.Promises f B script [] →
      (∀ k c, f (c.undergo k e) = f c) → (h.occur e).Promises f B script [] := by
    intro h e hp he
    refine ⟨fun k c' hc' => ?_, fun k hk => ?_⟩
    · rw [children_occur] at hc'
      obtain ⟨c, hc, rfl⟩ := Option.map_eq_some_iff.1 hc'
      rw [(c.later_undergo k e).command, ← hp.born k c hc]
      exact he k c
    · rw [deferred_occur]
      exact hp.unborn k (h.length_occur e ▸ hk)
  have hown : ∀ (e : Event), e.child? = some i → (∀ c, f (c.undergo i e) = f c) →
      ∀ k c, f (c.undergo k e) = f c := by
    intro e he hsame k c
    by_cases hk : i = k
    · exact hk ▸ hsame c
    · rw [Child.undergo_of_ne fun heq => hk (Option.some.inj (he.symm.trans heq))]
  rw [settleChild_eq]
  exact hquiet _ _ (hquiet h _ hp (hown _ rfl (hf.finish i))) (hown _ rfl (hf.close i))

/-- A wait keeps what is promised. -/
theorem Promises.poll (hf : Child.Lasting f) (hp : h.Promises f B script h.rounds.flatten)
    (active : Option Nat) (hwatch : h.watch active = h) :
    (h.poll active).2.Promises f B script (h.poll active).2.rounds.flatten :=
  poll_induction (P := fun es h => h.Promises f B script es)
    (fun _ _ _ hp => ⟨hp.born, hp.unborn⟩) (fun _ _ _ hp => hp.receive)
    (fun i _ hp => hp.settleChild hf i) active h (hwatch.symm ▸ hp)

/-- What the parent does keeps what is promised. -/
theorem Promises.handled (hf : Child.Lasting f) (hp : h.Promises f B script es)
    (hh : h.Handled h') : h'.Promises f B script es where
  born := by
    intro i c' hc'
    obtain ⟨c, hc, hd⟩ := hh.child i c' hc'
    rw [hd.command, ← hp.born i c hc]
    exact hf.handled (hd.foldl_undergo i es)
  unborn := by
    intro i hi
    rw [hh.deferred]
    exact hp.unborn i (hh.length ▸ hi)

/-! ### When a child is born -/

theorem children_foldl_occur (ds : List Event) (h : Host) (k : Nat) :
    (ds.foldl occur h).children[k]? =
      (h.children[k]?).map fun c => ds.foldl (Child.undergo k) c := by
  induction ds generalizing h with
  | nil => exact Option.map_id'.symm
  | cons e ds ih =>
      rw [List.foldl_cons, ih, children_occur, Option.map_map]
      rfl

theorem foldl_occur_keeps {α : Type} {f : Host → α} (hf : ∀ (h : Host) (e : Event),
    f (h.occur e) = f h) (ds : List Event) (h : Host) : f (ds.foldl occur h) = f h := by
  induction ds generalizing h with
  | nil => rfl
  | cons e ds ih => rw [List.foldl_cons, ih, hf]

variable {pipe : Nat} {command : Command} {echo : Option Bytes}

theorem rounds_grown : (h.grown pipe command echo).rounds = h.rounds := by
  unfold Host.grown
  rw [foldl_occur_keeps (f := Host.rounds) rounds_occur]
  unfold withChild
  dsimp only
  split
  · exact rounds_notify _ _
  · rfl

theorem deferred_grown : (h.grown pipe command echo).deferred =
    h.deferred.filter (·.child? != some h.children.length) := by
  unfold Host.grown
  rw [foldl_occur_keeps (f := Host.deferred) deferred_occur]
  rfl

/-- A child that is born keeps what is promised, if it promises what it should. -/
theorem Promises.grown (hp : h.Promises f B script es)
    (hnew : f (script.foldl (Child.undergo h.children.length) (h.newChild pipe command echo)) =
      B h.children.length command) :
    (h.grown pipe command echo).Promises f B script es where
  born := by
    intro i c' hc'
    unfold Host.grown at hc'
    rw [children_foldl_occur, children_withChild] at hc'
    obtain ⟨c, hc, rfl⟩ := Option.map_eq_some_iff.1 hc'
    rcases getElem?_concat_cases hc with hc | ⟨rfl, rfl⟩
    · have hsame : (h.deferred.filter (·.child? == some h.children.length)).foldl
          (Child.undergo i) c = c := by
        refine Child.foldl_undergo_of_ne (fun e he heq => ?_) c
        have hlt := (List.getElem?_eq_some_iff.1 hc).1
        have := (List.mem_filter.1 he).2
        rw [heq, beq_iff_eq, Option.some.injEq] at this
        omega
      rw [hsame]
      exact hp.born i c hc
    · -- The events kept for the child and those to come are all there are for it.
      have hall := congrArg (List.foldl (Child.undergo h.children.length)
        (h.newChild pipe command echo)) (hp.unborn _ (Nat.le_refl _))
      rw [List.filter_append, List.foldl_append, Child.foldl_undergo_filter,
        Child.foldl_undergo_filter, Child.foldl_undergo_filter] at hall
      rw [Child.command_foldl_undergo, Child.foldl_undergo_filter, hall]
      exact hnew
  unborn := by
    intro i hi
    rw [length_grown] at hi
    rw [deferred_grown, ← hp.unborn i (by omega), List.filter_append, List.filter_append,
      List.filter_filter]
    congr 1
    refine List.filter_congr fun e _ => ?_
    by_cases he : e.child? = some i
    · have hne : ¬ i = h.children.length := by omega
      simp [he, hne]
    · simp [he]

end Host

end OrderedJobs
