import Mathlib.Data.List.Basic
import OrderedJobs.Proofs.Calls

/-! # Plain calls

Most calls make neither a pipe nor a child and leave the handling of signals alone.  After such a
call no descriptor is open that was not open before, and nobody waits to be collected who did not
before (`Host.Shrinks`).  So it is at every instant of an operation that makes plain calls only
(`Calls.shrinks`), and these are waiting, giving up and writing. -/

namespace OrderedJobs

/-- The call makes no pipe and no child, and does not touch the handling of signals. -/
def SystemCall.plain : SystemCall → Bool
  | makePipe | fork .. | setSignals .. => false
  | _ => true

namespace Host

variable {h h' : Host}

/-- The children that were forked and not collected, in the order of their creation. -/
def uncollected (h : Host) : List Nat :=
  (List.range h.children.length).filter fun i => (h.children[i]?).any (!·.collected)

/-- Once collected, a child stays so: one step after another. -/
theorem collected_trans {h₁ h₂ h₃ : Host}
    (h : ∀ (i : Nat) (c' : Child), h₂.children[i]? = some c' →
      ∃ c, h₁.children[i]? = some c ∧ (c.collected = true → c'.collected = true))
    (k : ∀ (i : Nat) (c' : Child), h₃.children[i]? = some c' →
      ∃ c, h₂.children[i]? = some c ∧ (c.collected = true → c'.collected = true))
    (i : Nat) (c'' : Child) (hc'' : h₃.children[i]? = some c'') :
    ∃ c, h₁.children[i]? = some c ∧ (c.collected = true → c''.collected = true) := by
  obtain ⟨c', hc', hcoll'⟩ := k i c'' hc''
  obtain ⟨c, hc, hcoll⟩ := h i c' hc'
  exact ⟨c, hc, fun htrue => hcoll' (hcoll htrue)⟩

/-- What a call leaves of a host that opens and closes nothing and makes no child. -/
structure Keeps (h h' : Host) : Prop where
  descriptors : h'.descriptors = h.descriptors
  wakeup : h'.wakeup = h.wakeup
  pipes : h'.pipes = h.pipes
  misused : h.misused ≤ h'.misused
  length : h'.children.length = h.children.length
  child : ∀ (i : Nat) (c' : Child), h'.children[i]? = some c' →
    ∃ c, h.children[i]? = some c ∧ (c.collected = true → c'.collected = true)

namespace Keeps

/-- Nothing changed that matters here. -/
theorem of_eq (hdescriptors : h'.descriptors = h.descriptors) (hwakeup : h'.wakeup = h.wakeup)
    (hpipes : h'.pipes = h.pipes) (hmisused : h.misused ≤ h'.misused)
    (hchildren : h'.children = h.children) : h.Keeps h' where
  descriptors := hdescriptors
  wakeup := hwakeup
  pipes := hpipes
  misused := hmisused
  length := congrArg List.length hchildren
  child := fun _ c hc => ⟨c, hchildren ▸ hc, id⟩

theorem trans {h₁ h₂ h₃ : Host} (h : h₁.Keeps h₂) (k : h₂.Keeps h₃) : h₁.Keeps h₃ where
  descriptors := k.descriptors.trans h.descriptors
  wakeup := k.wakeup.trans h.wakeup
  pipes := k.pipes.trans h.pipes
  misused := Nat.le_trans h.misused k.misused
  length := k.length.trans h.length
  child := collected_trans h.child k.child

theorem of_later (hl : h.Later h') : h.Keeps h' where
  descriptors := hl.descriptors
  wakeup := hl.wakeup
  pipes := hl.pipes
  misused := Nat.le_of_eq hl.misused.symm
  length := hl.length
  child := by
    intro i c' hc'
    obtain ⟨c, hc, hlc⟩ := hl.child_before hc'
    exact ⟨c, hc, fun htrue => hlc.collected.trans htrue⟩

/-- One child was changed, and is not less collected than before. -/
theorem of_update {i : Nat} {f : Child → Child}
    (hf : ∀ c, c.collected = true → (f c).collected = true) : h.Keeps (h.updateChild i f) where
  descriptors := rfl
  wakeup := rfl
  pipes := rfl
  misused := Nat.le_refl _
  length := List.length_modify ..
  child := by
    intro k c' hc'
    rw [children_updateChild] at hc'
    obtain ⟨c, hc, rfl⟩ := Option.map_eq_some_iff.1 hc'
    refine ⟨c, hc, fun htrue => ?_⟩
    split
    · exact hf c htrue
    · exact htrue

end Keeps

theorem keeps_touch (h : Host) (d : Descriptor) : h.Keeps (h.touch d) := by
  unfold touch
  split
  · exact .of_eq rfl rfl rfl (Nat.le_refl _) rfl
  · exact .of_eq rfl rfl rfl (Nat.le_succ _) rfl

theorem keeps_useNotices (h : Host) : h.Keeps h.useNotices := by
  unfold useNotices
  split
  · exact h.keeps_touch _
  · exact .of_eq rfl rfl rfl (Nat.le_succ _) rfl

theorem keeps_useOutput (h : Host) (i : Nat) : h.Keeps (h.useOutput i) := by
  unfold useOutput
  split
  · exact h.keeps_touch _
  · exact .of_eq rfl rfl rfl (Nat.le_succ _) rfl

theorem keeps_watch (active : Option Nat) (h : Host) : h.Keeps (h.watch active) := by
  unfold watch
  split
  · exact h.keeps_useNotices
  · exact h.keeps_useNotices.trans (h.useNotices.keeps_useOutput _)

theorem keeps_poll (active : Option Nat) (h : Host) : h.Keeps (h.poll active).2 :=
  (keeps_watch active h).trans (.of_later (later_watch active h))

theorem keeps_takeNotices (h : Host) : h.Keeps h.takeNotices :=
  h.keeps_useNotices.trans (.of_eq rfl rfl rfl (Nat.le_refl _) rfl)

theorem keeps_collect (h : Host) (pid : Int) : h.Keeps (h.collect pid).2 := by
  rcases h.collect_snd pid with heq | ⟨j, heq⟩
  · rw [heq]
    exact .of_eq rfl rfl rfl (Nat.le_refl _) rfl
  · have hupdate : h.Keeps (h.updateChild j fun c => { c with collected := true }) :=
      .of_update fun _ _ => rfl
    rw [heq]
    exact hupdate.trans (.of_eq rfl rfl rfl (Nat.le_refl _) rfl)

theorem keeps_read (h : Host) (i limit : Nat) : h.Keeps (h.read i limit).2 := by
  unfold read
  split
  · exact h.keeps_useOutput i
  split
  · exact h.keeps_useOutput i
  split
  · exact .of_eq rfl rfl rfl (Nat.le_refl _) rfl
  split
  · exact .of_eq rfl rfl rfl (Nat.le_refl _) rfl
  · exact .of_update fun _ => id

theorem keeps_write (h : Host) (data : Bytes) : h.Keeps (h.write data).2 := by
  obtain ⟨accepted, calls, hframe⟩ := h.write_frame data
  rw [hframe]
  exact .of_eq rfl rfl rfl (Nat.le_refl _) rfl

theorem keeps_kill (h : Host) (pid : Int) (signal : Nat) : h.Keeps (h.kill pid signal) := by
  let sent : Host := { h with kills := h.kills ++ [(h.childOf pid, signal)] }
  have hsent : h.Keeps sent := .of_eq rfl rfl rfl (Nat.le_refl _) rfl
  unfold kill
  split
  · exact hsent
  · next i _ =>
      split
      · exact hsent
      · exact hsent.trans (.of_later (sent.later_occur (.finish i signal false)))

/-- What may have become of a host by plain calls. -/
structure Shrinks (h h' : Host) : Prop where
  descriptors : h'.descriptors.Sublist h.descriptors
  wakeup : h'.wakeup = h.wakeup
  length : h'.children.length = h.children.length
  child : ∀ (i : Nat) (c' : Child), h'.children[i]? = some c' →
    ∃ c, h.children[i]? = some c ∧ (c.collected = true → c'.collected = true)

namespace Shrinks

theorem refl (h : Host) : h.Shrinks h :=
  ⟨List.Sublist.refl _, rfl, rfl, fun _ c hc => ⟨c, hc, id⟩⟩

theorem trans {h₁ h₂ h₃ : Host} (h : h₁.Shrinks h₂) (k : h₂.Shrinks h₃) : h₁.Shrinks h₃ where
  descriptors := k.descriptors.trans h.descriptors
  wakeup := k.wakeup.trans h.wakeup
  length := k.length.trans h.length
  child := collected_trans h.child k.child

theorem of_keeps (hk : h.Keeps h') : h.Shrinks h' :=
  ⟨hk.descriptors ▸ List.Sublist.refl _, hk.wakeup, hk.length, hk.child⟩

theorem uncollected_sublist (hs : h.Shrinks h') : h'.uncollected.Sublist h.uncollected := by
  unfold uncollected
  rw [hs.length]
  apply List.monotone_filter_right
  intro i hany
  obtain ⟨c', hc', hcoll'⟩ := (Option.any_eq_true ..).1 hany
  obtain ⟨c, hc, hcoll⟩ := hs.child i c' hc'
  rw [hc, Option.any_some, Bool.not_eq_true', ← Bool.not_eq_true]
  intro htrue
  rw [hcoll htrue] at hcoll'
  cases hcoll'

end Shrinks

theorem shrinks_close (h : Host) (d : Descriptor) : h.Shrinks (h.close d) := by
  unfold close
  split
  · exact ⟨List.erase_sublist, rfl, rfl, fun _ c hc => ⟨c, hc, id⟩⟩
  · exact .of_keeps (.of_eq rfl rfl rfl (Nat.le_succ _) rfl)

end Host

theorem SystemCall.shrinks_effect {call : SystemCall} (hp : call.plain = true) (h : Host) :
    h.Shrinks (call.effect h) := by
  cases call with
  | makePipe | fork | setSignals => cases hp
  | close d => exact h.shrinks_close d
  | poll active => exact .of_keeps (h.keeps_poll active)
  | takeNotices => exact .of_keeps h.keeps_takeNotices
  | collect pid => exact .of_keeps (h.keeps_collect pid)
  | read child limit => exact .of_keeps (h.keeps_read child limit)
  | write data => exact .of_keeps (h.keeps_write data)
  | kill pid signal => exact .of_keeps (h.keeps_kill pid signal)

/-! ### Operations of plain calls -/

/-- All of the calls are plain, and made in one place. -/
def Plain (p : Place) (es : List Entry) : Prop := ∀ e ∈ es, e.place = p ∧ e.call.plain = true

section lists

variable {p : Place} {e : Entry} {es fs : List Entry}

@[simp]
theorem plain_nil (p : Place) : Plain p [] := fun _ he => absurd he List.not_mem_nil

@[simp]
theorem plain_cons :
    Plain p (e :: es) ↔ (e.place = p ∧ e.call.plain = true) ∧ Plain p es :=
  List.forall_mem_cons

@[simp]
theorem plain_append : Plain p (es ++ fs) ↔ Plain p es ∧ Plain p fs := List.forall_mem_append

/-- Between plain calls the host only shrinks: from the start up to each of them, and from there on
to the end. -/
theorem Calls.shrinks {h h' : Host} (hc : Calls h es h') (hp : Plain p es) :
    h.Shrinks h' ∧ ∀ e ∈ es, h.Shrinks e.host ∧ e.host.Shrinks h' := by
  induction hc with
  | nil h => exact ⟨.refl h, fun _ he => absurd he List.not_mem_nil⟩
  | @cons h h' e es hhost _ ih =>
      rw [plain_cons] at hp
      obtain ⟨⟨-, hplain⟩, hp⟩ := hp
      obtain ⟨hrest, hall⟩ := ih hp
      have hfirst : h.Shrinks e.after := by
        rw [← hhost]
        exact SystemCall.shrinks_effect hplain e.host
      refine ⟨hfirst.trans hrest, fun x hx => ?_⟩
      rcases List.mem_cons.1 hx with rfl | hx
      · rw [hhost]
        exact ⟨.refl h, hfirst.trans hrest⟩
      · obtain ⟨hbefore, hafter⟩ := hall x hx
        exact ⟨hfirst.trans hbefore, hafter⟩

end lists

namespace Session

variable {p : Place} {s : Session} {e : Entry}

/-- The writes of an operation change nothing but what the output accepted. -/
theorem mem_writeCalls {data : Bytes} {h : Host} (he : e ∈ s.writeCalls p data h) :
    e.place = p ∧ e.call.plain = true ∧ ∃ accepted calls,
      e.session = { s with host := { h with accepted := accepted, writeCalls := calls } } := by
  fun_induction writeCalls p s data h with
  | case1 h => cases he
  | case2 data h hd ih =>
      rcases List.mem_cons.1 he with rfl | he
      · exact ⟨rfl, rfl, h.accepted, h.writeCalls, rfl⟩
      split at he
      · cases he
      · next n h' hw =>
          obtain ⟨hplace, hplain, accepted, calls, hsession⟩ := ih n h' hw he
          obtain ⟨accepted', calls', hframe⟩ := h.write_frame data
          rw [hw] at hframe
          refine ⟨hplace, hplain, accepted, calls, ?_⟩
          rw [hsession, show h' = _ from hframe]

theorem plain_closeOutputCalls (p : Place) (s : Session) (child : Nat) :
    Plain p (s.closeOutputCalls p child) := by
  unfold closeOutputCalls
  split
  · simp [SystemCall.plain]
  · exact plain_nil p

theorem plain_dropCalls (is : List Nat) (s : Session) : Plain .cleanUp (dropCalls is s) := by
  induction is generalizing s with
  | nil => exact plain_nil _
  | cons i is ih =>
      rw [dropCalls, plain_append]
      exact ⟨plain_closeOutputCalls .cleanUp s i, ih _⟩

theorem plain_killCalls (pids : List Int) (s : Session) : Plain .cleanUp (killCalls pids s) := by
  induction pids generalizing s with
  | nil => exact plain_nil _
  | cons pid pids ih =>
      rw [killCalls, plain_cons]
      exact ⟨⟨rfl, rfl⟩, ih _⟩

theorem plain_collectCalls (pids : List Int) (s : Session) :
    Plain .cleanUp (collectCalls pids s) := by
  induction pids generalizing s with
  | nil => exact plain_nil _
  | cons pid pids ih =>
      rw [collectCalls, plain_cons]
      exact ⟨⟨rfl, rfl⟩, ih _⟩

/-- Giving up makes plain calls only. -/
theorem plain_abandonCalls (s : Session) : Plain .cleanUp s.abandonCalls := by
  unfold abandonCalls
  rw [plain_append, plain_append]
  exact ⟨⟨plain_dropCalls _ _, plain_killCalls _ _⟩, plain_collectCalls _ _⟩

end Session

end OrderedJobs
