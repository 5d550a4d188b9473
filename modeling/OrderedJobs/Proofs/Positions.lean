/-! # Lists by position

Jobs and children are known by their positions, so the lists of them are compared position by
position: a list with one more item, two lists of one length, and a list in which one item was
changed. -/

namespace OrderedJobs

variable {α β : Type} {l l' : List α} {x : α} {i : Nat}

theorem getElem?_concat_of_some {new : α} (h : l[i]? = some x) : (l ++ [new])[i]? = some x := by
  rw [List.getElem?_append_left (List.getElem?_eq_some_iff.1 h).1, h]

theorem getElem?_concat_cases {new : α} (h : (l ++ [new])[i]? = some x) :
    l[i]? = some x ∨ i = l.length ∧ x = new := by
  rcases Nat.lt_trichotomy i l.length with hlt | heq | hgt
  · rw [List.getElem?_append_left hlt] at h
    exact .inl h
  · subst heq
    rw [List.getElem?_concat_length] at h
    exact .inr ⟨rfl, (Option.some.inj h).symm⟩
  · rw [List.getElem?_eq_none (by simp; omega)] at h
    cases h

theorem getElem?_eq_none_of_length {m : List β} (hlen : l.length = m.length) (h : l[i]? = none) :
    m[i]? = none := by
  rw [List.getElem?_eq_none_iff] at h ⊢
  omega

/-- What relates each item of a list to one of another list of that length relates it back. -/
theorem exists_getElem?_of_length {m : List β} {R : α → β → Prop} (hlen : m.length = l.length)
    (h : ∀ (k : Nat) (y : β), m[k]? = some y → ∃ x, l[k]? = some x ∧ R x y) (hx : l[i]? = some x) :
    ∃ y, m[i]? = some y ∧ R x y := by
  have hlt : i < m.length := hlen ▸ (List.getElem?_eq_some_iff.1 hx).1
  obtain ⟨x', hx', hr⟩ := h i _ (List.getElem?_eq_getElem hlt)
  rw [hx] at hx'
  cases hx'
  exact ⟨_, List.getElem?_eq_getElem hlt, hr⟩

theorem map_eq_of_getElem? {f : α → β} (hlen : l'.length = l.length)
    (h : ∀ (i : Nat) (x' : α), l'[i]? = some x' → ∃ x, l[i]? = some x ∧ f x' = f x) :
    l'.map f = l.map f := by
  refine List.ext_getElem? fun i => ?_
  rw [List.getElem?_map, List.getElem?_map]
  cases hx : l'[i]? with
  | none => rw [getElem?_eq_none_of_length hlen hx]
  | some x' =>
      obtain ⟨x, hx', hf⟩ := h i x' hx
      rw [hx', Option.map_some, Option.map_some, hf]

theorem flatMap_modify_of_nil {f : α → List β} {g : α → α} {new : List β} (hx : l[i]? = some x)
    (hnew : f (g x) = f x ++ new)
    (hnil : ∀ (k : Nat) (y : α), i < k → l[k]? = some y → f y = []) :
    (l.modify i g).flatMap f = l.flatMap f ++ new := by
  induction l generalizing i with
  | nil => cases hx
  | cons y l ih =>
      cases i with
      | zero =>
          cases hx
          have hrest : l.flatMap f = [] := by
            rw [List.flatMap_eq_nil_iff]
            intro z hz
            obtain ⟨k, hk⟩ := List.mem_iff_getElem?.1 hz
            exact hnil (k + 1) z (Nat.succ_pos k) hk
          rw [List.modify_zero_cons, List.flatMap_cons, List.flatMap_cons, hnew, hrest,
            List.append_nil, List.append_nil]
      | succ i =>
          have := ih hx fun k z hlt hz => hnil (k + 1) z (Nat.succ_lt_succ hlt) hz
          rw [List.modify_succ_cons, List.flatMap_cons, List.flatMap_cons, this, List.append_assoc]

/-- Changing items one after the other, where a second change of an item does nothing. -/
theorem getElem?_foldl_modify {f : α → α} (hf : ∀ x, f (f x) = f x) (is : List Nat) (l : List α)
    (k : Nat) : (is.foldl (fun l i => l.modify i f) l)[k]? =
      (l[k]?).map fun x => if k ∈ is then f x else x := by
  induction is generalizing l with
  | nil => simp
  | cons i is ih =>
      rw [List.foldl_cons, ih, List.getElem?_modify]
      cases l[k]? with
      | none => rfl
      | some x =>
          by_cases hik : i = k
          · simp [hik, hf]
          · have hki : ¬ k = i := fun heq => hik heq.symm
            simp [hik, hki]

end OrderedJobs
