import OrderedJobs.Proofs.Waiting

/-! # A rule for waiting

A wait is made of a poll, of the handling of notices, and of a drain of the job at the cursor.  What
holds of a wait is shown for these parts, and `Sound.wait_yields` puts them together: `P` is what
holds between the parts, `Q` what holds when all went well, and `F` what holds when a part failed
(`Session.Yields`).  The parts themselves are split into their cases by
`Sound.handleNotices_cases` and `Sound.drain_cases`, and every case that writes ends in one call of
`Session.present`. -/

namespace OrderedJobs

namespace Session

variable {s t : Session} {o : Holdings} {j : Nat} {P Q : Session → Prop}
  {F : Failure → Session → Prop}

/-- A call succeeds with a session of which `P` holds, or fails with one of which `F` holds. -/
def Yields (P : Session → Prop) (F : Failure → Session → Prop) :
    Except Failure Unit × Session → Prop
  | (.ok (), s) => P s
  | (.error e, s) => F e s

section yields

variable {x : Except Failure Unit × Session}

theorem yields_of_ok (hok : x.1 = .ok ()) (h : P x.2) : Yields P F x := by
  obtain ⟨r, s⟩ := x
  subst hok
  exact h

theorem Yields.ok (h : Yields P (fun _ _ => False) x) : x.1 = .ok () := by
  obtain ⟨_ | _, s⟩ := x
  · exact h.elim
  · rfl

theorem yields_of_snd (h : P x.2) : Yields P (fun _ => P) x := by
  obtain ⟨_ | _, s⟩ := x <;> exact h

theorem Yields.snd (h : Yields P (fun _ => P) x) : P x.2 := by
  obtain ⟨_ | _, s⟩ := x <;> exact h

end yields

/-! ### Notices -/

/-- Handling notices stops at a child that cannot be waited for, or shows what a reaping leaves to
show, if anything. -/
theorem Sound.handleNotices_cases (h : s.Sound o) :
    (∃ pid j, (pid, j) ∈ s.board.running ∧ j ∈ s.host.platform.faults.lost ∧
      s.handleNotices = (.error (.system (.wait pid) .noChild), s.reap.2)) ∨
    s.handleNotices = (.ok (), s.reap.2) ∨ s.handleNotices = s.reap.2.noteReaped := by
  obtain ⟨-, -, hend⟩ := h.reap
  unfold Session.handleNotices
  generalize s.reap = r at hend ⊢
  obtain ⟨r, t⟩ := r
  cases hend with
  | lost hmem hlost => exact .inl ⟨_, _, hmem, hlost, rfl⟩
  | all js hrun =>
      right
      cases js with
      | nil => exact .inl rfl
      | cons j js => exact .inr rfl

theorem Reaping.readable (h : Reaping s t) (i : Nat) :
    t.host.readable i = s.host.readable i := by
  have hends : t.host.descriptors = s.host.descriptors := by rw [h.host]
  unfold Host.readable Host.atEnd
  rw [hends]
  cases hc' : t.host.children[i]? with
  | none => rw [getElem?_eq_none_of_length h.length hc']
  | some c' =>
      obtain ⟨c, hc, rfl | rfl⟩ := h.child i c' hc'
      · rw [hc]
      · rw [hc]
        rfl

theorem Sound.readable_reap (h : s.Sound o) (i : Nat) :
    s.reap.2.host.readable i = s.host.readable i := by
  obtain ⟨-, hreap, -⟩ := h.reap
  rw [hreap.readable, h.takeNotices_eq]
  rfl

theorem Sound.readable_handleNotices (h : s.Sound o) (i : Nat) :
    s.handleNotices.2.host.readable i = s.host.readable i := by
  rcases h.handleNotices_cases with ⟨pid, j, -, -, heq⟩ | heq | heq
  · rw [heq]
    exact h.readable_reap i
  · rw [heq]
    exact h.readable_reap i
  · obtain ⟨accepted, calls, hframe⟩ := s.reap.2.present_frame
      (s.reap.2.display.onReaped s.reap.2.board.finished s.reap.2.board.started)
    rw [heq]
    unfold noteReaped
    rw [hframe]
    exact h.readable_reap i

/-! ### The rule -/

/-- What a wait comes to, from what its parts come to. -/
theorem Sound.wait_yields (h : s.Sound o) (ha : s.host.Announced)
    (hphase : s.board.phase = .waiting) (hpolled : P s.polled)
    (hnotices : s.polled.Sound o → Yields P F s.polled.handleNotices)
    (hidle : ∀ t, P t → Q t)
    (hdrain : ∀ (t : Session) (j : Nat), t.Sound o → P t → (j : Int) = t.board.current →
      t.board.current < t.board.next → t.host.readable j = true → Yields Q F (t.drain j)) :
    Yields Q F s.wait := by
  have hsound := h.polled
  have hready : (s.host.poll s.awaited).1 = s.polled.host.readiness s.polled.awaited := rfl
  rw [h.wait_eq ha hphase, hready]
  have hnotices := hnotices hsound
  generalize s.polled = s at hsound hpolled hnotices ⊢
  -- After the notices, the job at the cursor is still the same and as readable as before.
  have hfirst : Yields (fun t => P t ∧ t.Sound o ∧ t.board.current = s.board.current ∧
      t.board.next = s.board.next ∧ ∀ i, t.host.readable i = s.host.readable i) F
      (if (s.host.readiness s.awaited).notices then s.handleNotices else (.ok (), s)) := by
    cases (s.host.readiness s.awaited).notices with
    | false => exact ⟨hpolled, hsound, rfl, rfl, fun _ => rfl⟩
    | true =>
        rw [if_pos rfl]
        obtain ⟨hs, hh, -, hc, -⟩ := hsound.handleNotices
        have hr := hsound.readable_handleNotices
        have hn := hh.next
        generalize s.handleNotices = x at hnotices hs hn hc hr ⊢
        obtain ⟨_ | _, t⟩ := x
        · exact hnotices
        · exact ⟨hnotices, hs, hc, hn, hr⟩
  unfold Session.handle
  generalize (if (s.host.readiness s.awaited).notices then s.handleNotices else (.ok (), s)) = x
    at hfirst ⊢
  obtain ⟨_ | _, t⟩ := x
  · exact hfirst
  obtain ⟨hp, htsound, hcurrent, hnext, hreadable⟩ := hfirst
  dsimp only
  by_cases hlt : s.board.current < s.board.next
  · rw [hsound.board.active_eq hlt]
    dsimp only
    by_cases hout : (s.host.readiness s.awaited).output = true
    · rw [if_pos hout]
      have hnn := hsound.board.current_nonneg
      apply hdrain t _ htsound hp
      · omega
      · omega
      · rw [hreadable]
        unfold Host.readiness at hout
        rw [hsound.awaited_eq hlt] at hout
        exact hout
    · rw [if_neg hout]
      exact hidle t hp
  · have hle := hsound.board.current_le
    rw [Board.active_eq_none (by omega)]
    exact hidle t hp

end Session

end OrderedJobs
