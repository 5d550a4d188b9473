import OrderedJobs.Proofs.Handling

/-! # Waiting

A wait always comes to an end.  As long as every end of a child is announced (`Host.Announced`) and
the phase is waiting, something is ready once all children are settled: a notice if a child is still
to be collected, and otherwise the pipe of the job at the cursor, which is at its end
(`Sound.ready_of_settled`).  And a poll goes on until something is ready or all children are
settled, so it finds something (`Sound.poll_ready`).

A wait that succeeds leaves no child that has ended uncollected (`Sound.wait`). -/

namespace OrderedJobs

namespace Host

variable {h h' : Host}

/-- No child has ended unnoticed: while one that has ended is not collected, there is a notice. -/
def Announced (h : Host) : Prop :=
  ∀ (i : Nat) (c : Child), h.children[i]? = some c → c.status ≠ none → c.collected = false →
    0 < h.notices

theorem Cleared.announced (h : h'.Cleared) : h'.Announced :=
  fun i c hc hs hcoll => absurd (h i c hc hcoll) hs

theorem notices_notify (hw : h.wakeup ≠ none) (n : Nat) :
    (h.notify n).notices = h.notices + n := by
  unfold notify
  rw [if_pos (Option.isSome_iff_ne_none.2 hw)]

theorem notices_le_notify (h : Host) (n : Nat) : h.notices ≤ (h.notify n).notices := by
  unfold notify
  split
  · exact Nat.le_add_right _ _
  · exact Nat.le_refl _

theorem notices_le_occur (h : Host) (e : Event) : h.notices ≤ (h.occur e).notices := by
  cases e with
  | data i bytes => exact Nat.le_refl _
  | close i => exact Nat.le_refl _
  | finish i status held =>
      show h.notices ≤ (h.finishChild i status held).notices
      unfold finishChild
      split
      · split
        · exact notices_le_notify (h.updateChild i _) 1
        · exact Nat.le_refl _
      · exact Nat.le_refl _
  | wake n => exact notices_le_notify _ _

/-- An event that ends a child makes a notice. -/
theorem notices_occur_pos {i : Nat} {c : Child} {e : Event} (hw : h.wakeup ≠ none)
    (hc : h.children[i]? = some c) (hs : c.status = none) (hs' : (c.undergo i e).status ≠ none) :
    0 < (h.occur e).notices := by
  cases e with
  | data k bytes =>
      refine absurd ?_ hs'
      simp only [Child.undergo]
      split <;> exact hs
  | close k =>
      refine absurd ?_ hs'
      simp only [Child.undergo]
      split <;> exact hs
  | finish k status held =>
      simp only [Child.undergo] at hs'
      split at hs'
      · next hcond =>
          obtain ⟨rfl, -⟩ := hcond
          show 0 < (h.finishChild k status held).notices
          rw [finishChild_eq hc status held hs, notices_notify (h := h.updateChild k _) hw]
          exact Nat.succ_pos _
      · exact absurd hs hs'
  | wake n => exact absurd hs hs'

/-- Ends stay announced whatever happens. -/
theorem Announced.occur (ha : h.Announced) (hw : h.wakeup ≠ none) (e : Event) :
    (h.occur e).Announced := by
  intro i c' hc' hs' hcoll
  rw [children_occur] at hc'
  obtain ⟨c, hc, rfl⟩ := Option.map_eq_some_iff.1 hc'
  have hle := h.notices_le_occur e
  by_cases hs : c.status = none
  · exact notices_occur_pos hw hc hs hs'
  · have := ha i c hc hs ((c.later_undergo i e).collected ▸ hcoll)
    omega

theorem Announced.foldl_occur (es : List Event) (ha : h.Announced) (hw : h.wakeup ≠ none) :
    (es.foldl Host.occur h).Announced := by
  induction es generalizing h with
  | nil => exact ha
  | cons e es ih =>
      apply ih (ha.occur hw e)
      rw [(h.later_occur e).wakeup]
      exact hw

theorem Announced.poll (ha : h.Announced) (hw : h.wakeup ≠ none) (active : Option Nat)
    (hwatch : h.watch active = h) : (h.poll active).2.Announced := by
  have := poll_induction (P := fun _ h => h.wakeup ≠ none ∧ h.Announced)
    (fun _ rounds h hp => hp) ?_ ?_ active h (hwatch.symm ▸ ⟨hw, ha⟩)
  · exact this.2
  · rintro e es h ⟨hw, ha⟩
    refine ⟨by rw [(h.later_receive e).wakeup]; exact hw, ?_⟩
    unfold receive
    split
    · exact ha.occur hw e
    · exact ha
  · rintro i h ⟨hw, ha⟩
    refine ⟨by rw [(h.later_settleChild i).wakeup]; exact hw, ?_⟩
    rw [settleChild_eq]
    refine (ha.occur hw _).occur ?_ _
    rw [(h.later_occur _).wakeup]
    exact hw

/-! ### Until everything is settled -/

theorem unsettled_later {c c' : Child} (hl : c.Later c') (hu : c.unsettled = false) :
    c'.unsettled = false := by
  unfold Child.unsettled at hu ⊢
  rw [Bool.or_eq_false_iff] at hu ⊢
  obtain ⟨hheld, hstatus⟩ := hu
  constructor
  · rw [← Bool.not_eq_true] at hheld ⊢
    exact fun htrue => hheld (hl.held htrue)
  · cases hs : c.status with
    | none => rw [hs] at hstatus; cases hstatus
    | some st => rw [hl.status st hs]; rfl

/-- All of some children are settled. -/
def Settled (h : Host) (is : List Nat) : Prop :=
  ∀ i ∈ is, ∀ c, h.children[i]? = some c → c.unsettled = false

theorem Settled.later {is : List Nat} (hs : h.Settled is) (hl : h.Later h') : h'.Settled is := by
  intro i hi c' hc'
  obtain ⟨c, hc, hlc⟩ := hl.child_before hc'
  exact unsettled_later hlc (hs i hi c hc)

theorem settled_settleChild (h : Host) (i : Nat) : (h.settleChild i).Settled [i] := by
  intro k hk c' hc'
  rw [List.mem_singleton.1 hk, settleChild_eq, children_occur, children_occur,
    Option.map_map] at hc'
  obtain ⟨c, hc, rfl⟩ := Option.map_eq_some_iff.1 hc'
  cases hs : c.status <;> simp [Child.undergo, Child.unsettled, hs]

theorem awaitChildren_settled (active : Option Nat) (is : List Nat) (h : Host) :
    ((awaitChildren active is h).readiness active).any = true ∨
      (awaitChildren active is h).Settled is := by
  induction is generalizing h with
  | nil => exact .inr fun i hi => absurd hi List.not_mem_nil
  | cons i is ih =>
      unfold awaitChildren
      split
      · next hready => exact .inl hready
      · rcases ih (h.settleChild i) with hready | hset
        · exact .inl hready
        · right
          have hlater : (h.settleChild i).Later (awaitChildren active is (h.settleChild i)) :=
            later_awaitChildren active is _
          intro k hk
          rcases List.mem_cons.1 hk with rfl | hk
          · exact (h.settled_settleChild _).later hlater k (List.mem_singleton_self k)
          · exact hset k hk

/-- A poll finds something ready, or leaves all children settled. -/
theorem poll_settled (active : Option Nat) (h : Host) : (h.poll active).1.any = true ∨
    ∀ (i : Nat) (c : Child), (h.poll active).2.children[i]? = some c → c.unsettled = false := by
  unfold poll
  dsimp only
  generalize awaitRounds active (h.watch active).nextRound.rounds (h.watch active).nextRound = h₁
  have hlater := later_awaitChildren active h₁.unsettledChildren h₁
  rcases awaitChildren_settled active h₁.unsettledChildren h₁ with hready | hset
  · exact .inl hready
  · right
    intro i c' hc'
    obtain ⟨c, hc, hlc⟩ := hlater.child_before hc'
    cases hu : c.unsettled with
    | false => exact unsettled_later hlc hu
    | true =>
        refine hset i ?_ c' hc'
        unfold unsettledChildren
        rw [List.mem_filterMap]
        exact ⟨(c, i), List.mem_zipIdx_iff_getElem?.2 hc, by simp [hu]⟩

end Host

namespace Board

variable {b : Board}

theorem phase_eq_waiting (h : b.phase = .waiting) :
    b.isDone = false ∧ (b.exhausted = true ∨ b.canLaunch = false) := by
  unfold phase at h
  cases hd : b.isDone with
  | true => rw [hd, if_pos rfl] at h; cases h
  | false =>
      refine ⟨rfl, ?_⟩
      rw [hd, if_neg (by decide)] at h
      cases he : b.exhausted with
      | true => exact .inl rfl
      | false =>
          cases hc : b.canLaunch with
          | false => exact .inr rfl
          | true => rw [he, hc] at h; cases h

theorem unreaped_eq_nil (h : b.Counts) (hrun : b.running = []) : b.unreaped = [] := by
  have := h.running
  rw [hrun] at this
  exact List.map_eq_nil_iff.1 this.symm

/-- With nothing to drain and nothing running, there is no live job. -/
theorem Sound.not_live (h : b.Sound) (heq : b.current = b.next) (hrun : b.running = []) (j : Nat) :
    ¬ b.Live j := by
  rintro ⟨job, hj, hboth⟩
  apply hboth
  constructor
  · cases hr : job.reaped with
    | true => rfl
    | false =>
        have hmem : j ∈ b.unreaped := mem_unreaped.2 ⟨job, hj, hr⟩
        rw [unreaped_eq_nil h.toCounts hrun] at hmem
        exact absurd hmem List.not_mem_nil
  · rw [(h.kept j job hj).drained, heq, h.next]
    have := (List.getElem?_eq_some_iff.1 hj).1
    omega

/-- Waiting with nothing running, there is a job to drain. -/
theorem Sound.current_lt_of_waiting (h : b.Sound) (hphase : b.phase = .waiting)
    (hrun : b.running = []) : b.current < b.next := by
  obtain ⟨hdone, hor⟩ := phase_eq_waiting hphase
  rcases Int.lt_or_eq_of_le h.current_le with hlt | heq
  · exact hlt
  · exfalso
    rcases hor with hex | hlaunch
    · unfold isDone at hdone
      rw [hex, hrun, heq] at hdone
      simp at hdone
    · have hcap := b.limits.capacity_pos
      rw [← Bool.not_eq_true, canLaunch_iff, hrun] at hlaunch
      refine hlaunch ⟨b.limits.concurrency_pos, by omega, ?_⟩
      -- Every occupant is live, so the slot of the next job is free.
      cases ho : b.occupant b.next with
      | none => rfl
      | some k =>
          unfold occupant at ho
          exact absurd ((h.occupied _ k).1 (Option.join_eq_some_iff.1 ho)).1 (h.not_live heq hrun k)

end Board

namespace Session

variable {s : Session} {o : Holdings}

/-- While a run waits, something is ready once all children are settled. -/
theorem Sound.ready_of_settled (h : s.Sound o) (ha : s.host.Announced)
    (hphase : s.board.phase = .waiting)
    (hset : ∀ (i : Nat) (c : Child), s.host.children[i]? = some c → c.unsettled = false) :
    (s.host.readiness s.awaited).any = true := by
  unfold Readiness.any Host.readiness
  rw [Bool.or_eq_true, decide_eq_true_eq]
  cases hrun : s.board.running with
  | cons x rest =>
      left
      obtain ⟨pid, j⟩ := x
      have hmem : (pid, j) ∈ s.board.running := hrun ▸ List.mem_cons_self
      obtain ⟨-, hj⟩ := h.board.mem_running.1 hmem
      obtain ⟨c, hc, hcoll⟩ := h.child_of_unreaped hj
      refine ha j c hc (fun hnone => ?_) hcoll
      have := hset j c hc
      unfold Child.unsettled at this
      rw [hnone] at this
      simp at this
  | nil =>
      right
      have hlt := h.board.current_lt_of_waiting hphase hrun
      have hnn := h.board.current_nonneg
      obtain ⟨c, hc⟩ := h.child_of_lt (j := s.board.current.toNat) (by omega)
      rw [h.awaited_eq hlt, Option.any_some]
      have hheld : c.held = false := (Bool.or_eq_false_iff.1 (hset _ c hc)).1
      unfold Host.readable
      rw [hc, Option.any_some, h.atEnd_eq hc, hheld, Bool.not_false, Bool.or_true]

/-- A run that waits has something ready, or a round to come, or a child that is not settled. -/
theorem Sound.can_wait (h : s.Sound o) (ha : s.host.Announced) (hphase : s.board.phase = .waiting) :
    (s.host.readiness s.awaited).any = true ∨ s.host.rounds ≠ [] ∨
      ∃ (i : Nat) (c : Child), s.host.children[i]? = some c ∧ c.unsettled = true := by
  by_cases hex : ∃ (i : Nat) (c : Child), s.host.children[i]? = some c ∧ c.unsettled = true
  · exact .inr (.inr hex)
  · refine .inl (h.ready_of_settled ha hphase fun i c hc => ?_)
    rw [← Bool.not_eq_true]
    exact fun hu => hex ⟨i, c, hc, hu⟩

/-- The session when a poll has come back. -/
def polled (s : Session) : Session := { s with host := (s.host.poll s.awaited).2 }

theorem Sound.later_polled (h : s.Sound o) : s.host.Later s.polled.host :=
  Host.later_poll _ _ h.watch_eq

theorem Sound.polled (h : s.Sound o) : s.polled.Sound o := h.later h.later_polled

theorem Sound.wakeup_ne_none (h : s.Sound o) : s.host.wakeup ≠ none := by
  rw [h.wakeup]
  exact Option.some_ne_none _

theorem Sound.announced_polled (h : s.Sound o) (ha : s.host.Announced) : s.polled.host.Announced :=
  ha.poll h.wakeup_ne_none _ h.watch_eq

/-- Every poll finds something ready. -/
theorem Sound.poll_ready (h : s.Sound o) (ha : s.host.Announced)
    (hphase : s.board.phase = .waiting) :
    (s.host.poll s.awaited).1.any = true := by
  rcases Host.poll_settled s.awaited s.host with hready | hset
  · exact hready
  · exact h.polled.ready_of_settled (h.announced_polled ha) hphase hset

theorem Sound.wait_eq (h : s.Sound o) (ha : s.host.Announced) (hphase : s.board.phase = .waiting) :
    s.wait = s.polled.handle s.polled.board.active (s.host.poll s.awaited).1 := by
  unfold Session.wait
  dsimp only
  rw [if_pos (h.poll_ready ha hphase)]
  rfl

/-- What a wait comes to, whether it fails or not. -/
theorem Sound.wait (h : s.Sound o) (ha : s.host.Announced) (hphase : s.board.phase = .waiting) :
    s.wait.2.Sound o ∧ s.polled.Handled s.wait.2 ∧ FromSystem s.wait.1 ∧
      (s.wait.1 = .ok () → s.wait.2.host.Cleared) := by
  obtain ⟨hsound, hhandled, hsys, hclear⟩ := h.polled.handle (s.host.poll s.awaited).1
  rw [h.wait_eq ha hphase]
  refine ⟨hsound, hhandled, hsys, fun hok => hclear hok ?_⟩
  by_cases hn : 0 < s.polled.host.notices
  · exact .inl (decide_eq_true hn)
  · -- Without a notice nobody has ended.
    right
    intro i c hc hcoll
    cases hs : c.status with
    | none => rfl
    | some status =>
        have := h.announced_polled ha i c hc (by rw [hs]; exact Option.some_ne_none _) hcoll
        exact absurd this hn

end Session

end OrderedJobs
