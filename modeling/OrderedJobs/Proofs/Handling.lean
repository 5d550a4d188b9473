import OrderedJobs.Proofs.Draining
import OrderedJobs.Proofs.Reaping

/-! # Handling what a wait found

Reaping, draining and writing are all that a run does about its children once they are launched.
Together they leave a sound session (`Sound.handle`).  What the children did is not theirs to change
(`Session.Handled`): no byte that was written to a pipe is lost, nobody ends by them, and a status
that was collected stays so.  They fail by calls of the operating system only, and when they succeed
no child that has ended is left uncollected. -/

namespace OrderedJobs

/-- What the parent's handling leaves of a child. -/
structure Child.Handled (c c' : Child) : Prop where
  command : c'.command = c.command
  written : c'.written = c.written
  held : c'.held = c.held
  status : c'.status = c.status
  collected : c.collected = true → c'.collected = true

/-- What the parent's handling leaves of a host. -/
structure Host.Handled (h h' : Host) : Prop where
  platform : h'.platform = h.platform
  rounds : h'.rounds = h.rounds
  deferred : h'.deferred = h.deferred
  pipes : h'.pipes = h.pipes
  length : h'.children.length = h.children.length
  child : ∀ (i : Nat) (c' : Child), h'.children[i]? = some c' →
    ∃ c, h.children[i]? = some c ∧ c.Handled c'

/-- What handling leaves of a session. -/
structure Session.Handled (s s' : Session) : Prop where
  host : s.host.Handled s'.host
  limits : s'.board.limits = s.board.limits
  next : s'.board.next = s.board.next
  exhausted : s'.board.exhausted = s.board.exhausted
  commands : ∀ k : Nat,
    (s'.board.jobs[k]?).map Job.command = (s.board.jobs[k]?).map Job.command
  progress : s'.display.progress = s.display.progress

theorem Child.Handled.refl (c : Child) : c.Handled c := ⟨rfl, rfl, rfl, rfl, id⟩

theorem Child.Handled.trans {c d e : Child} (h : c.Handled d) (k : d.Handled e) : c.Handled e :=
  ⟨k.command.trans h.command, k.written.trans h.written, k.held.trans h.held,
    k.status.trans h.status, fun hc => k.collected (h.collected hc)⟩

theorem Child.Handled.writing {c d : Child} (h : c.Handled d) : d.writing = c.writing := by
  unfold Child.writing
  rw [h.held, h.status]

theorem Host.Handled.trans {h₁ h₂ h₃ : Host} (h : h₁.Handled h₂) (k : h₂.Handled h₃) :
    h₁.Handled h₃ := by
  refine ⟨k.platform.trans h.platform, k.rounds.trans h.rounds, k.deferred.trans h.deferred,
    k.pipes.trans h.pipes, k.length.trans h.length, fun i c'' hc'' => ?_⟩
  obtain ⟨c', hc', hd'⟩ := k.child i c'' hc''
  obtain ⟨c, hc, hd⟩ := h.child i c' hc'
  exact ⟨c, hc, hd.trans hd'⟩

theorem Host.Handled.of_children {h h' : Host} (hplatform : h'.platform = h.platform)
    (hrounds : h'.rounds = h.rounds) (hdeferred : h'.deferred = h.deferred)
    (hpipes : h'.pipes = h.pipes) (hchildren : h'.children = h.children) : h.Handled h' :=
  ⟨hplatform, hrounds, hdeferred, hpipes, congrArg List.length hchildren,
    fun _ c hc => ⟨c, hchildren ▸ hc, Child.Handled.refl c⟩⟩

theorem Host.Handled.refl (h : Host) : h.Handled h := .of_children rfl rfl rfl rfl rfl

/-- Every child that has ended was collected. -/
def Host.Cleared (h : Host) : Prop :=
  ∀ (i : Nat) (c : Child), h.children[i]? = some c → c.collected = false → c.status = none

theorem Host.Cleared.handled {h h' : Host} (hc : h.Cleared) (hh : h.Handled h') : h'.Cleared := by
  intro i c' hc' hcoll
  obtain ⟨c, hci, hd⟩ := hh.child i c' hc'
  rw [hd.status]
  apply hc i c hci
  rw [← Bool.not_eq_true] at hcoll ⊢
  exact fun htrue => hcoll (hd.collected htrue)

namespace Session

variable {s s' t : Session} {o : Holdings} {j : Nat}

theorem Handled.trans (h : s.Handled t) (k : t.Handled s') : s.Handled s' :=
  ⟨h.host.trans k.host, k.limits.trans h.limits, k.next.trans h.next, k.exhausted.trans h.exhausted,
    fun j => (k.commands j).trans (h.commands j), k.progress.trans h.progress⟩

/-- Handling that leaves the board and the children as they are. -/
theorem Handled.of_host (hhost : s.host.Handled s'.host) (hboard : s'.board = s.board)
    (hprogress : s'.display.progress = s.display.progress) : s.Handled s' where
  host := hhost
  limits := by rw [hboard]
  next := by rw [hboard]
  exhausted := by rw [hboard]
  commands := fun k => by rw [hboard]
  progress := hprogress

theorem handled_present (s : Session) (segments : List Segment) :
    s.Handled (s.present segments).2 := by
  obtain ⟨accepted, calls, heq⟩ := s.present_frame segments
  rw [heq]
  exact .of_host (.of_children rfl rfl rfl rfl rfl) rfl rfl

theorem Sound.handled_takeNotices (h : s.Sound o) : s.Handled s.takeNotices := by
  rw [h.takeNotices_eq]
  exact .of_host (.of_children rfl rfl rfl rfl rfl) rfl rfl

theorem Reaping.handled (h : Reaping s s') : s.Handled s' where
  host := by
    refine ⟨by rw [h.host], by rw [h.host], by rw [h.host], by rw [h.host], h.length, ?_⟩
    intro i c' hc'
    obtain ⟨c, hc, rfl | rfl⟩ := h.child i c' hc'
    · exact ⟨_, hc, Child.Handled.refl _⟩
    · exact ⟨c, hc, ⟨rfl, rfl, rfl, rfl, fun _ => rfl⟩⟩
  limits := h.limits
  next := h.next
  exhausted := h.exhausted
  commands := h.commands
  progress := by rw [h.display]

theorem handled_began (s : Session) (j : Nat) : s.Handled (s.began j) where
  host := .refl _
  limits := rfl
  next := rfl
  exhausted := rfl
  commands := Board.map_modify (f := fun job => { job with stage := .draining }) (fun _ => rfl) _
  progress := rfl

theorem handled_closed (s : Session) (j : Nat) (o : Holdings) : s.Handled (s.closed j o) where
  host := .of_children rfl rfl rfl rfl rfl
  limits := Board.settled_limits _ _
  next := Board.settled_next _ _
  exhausted := Board.settled_exhausted _ _
  commands := fun k => (Board.settled_command _ j k).trans
    (Board.map_modify (f := fun job => { job with output := none, drained := true })
      (fun _ => rfl) _ k)
  progress := rfl

theorem handled_taken (s : Session) (j : Nat) : s.Handled (s.taken j) where
  host := by
    refine ⟨rfl, rfl, rfl, rfl, List.length_modify .., ?_⟩
    intro i c' hc'
    have hc' : (s.host.taken j chunk).children[i]? = some c' := hc'
    rw [Host.taken, Host.children_updateChild] at hc'
    obtain ⟨c, hc, rfl⟩ := Option.map_eq_some_iff.1 hc'
    refine ⟨c, hc, ?_⟩
    by_cases hji : j = i
    · rw [if_pos hji]
      refine ⟨rfl, ?_, rfl, rfl, id⟩
      show (c.passed ++ c.waiting.take chunk) ++ c.waiting.drop chunk = c.passed ++ c.waiting
      rw [List.append_assoc, List.take_append_drop]
    · rw [if_neg hji]
      exact Child.Handled.refl c
  limits := rfl
  next := rfl
  exhausted := rfl
  commands := fun _ => rfl
  progress := rfl

theorem handled_showData (s : Session) (data : Bytes) : s.Handled (s.showData data).2 := by
  have hprogress : (s.display.onData data s.board.finished s.board.started).2.progress =
      s.display.progress := by
    unfold Display.onData
    split <;> rfl
  let t : Session := { s with
    display := (s.display.onData data s.board.finished s.board.started).2 }
  have ht : s.Handled t := .of_host (.refl _) rfl hprogress
  exact ht.trans (t.handled_present _)

theorem handled_showEnd (s : Session) : s.Handled s.showEnd.2 := by
  have hprogress : s.display.onEnd.2.progress = s.display.progress := by
    unfold Display.onEnd
    split
    · rfl
    · split <;> rfl
  let t : Session := { s with display := s.display.onEnd.2 }
  have ht : s.Handled t := .of_host (.refl _) rfl hprogress
  exact ht.trans (t.handled_present _)

/-! ### Draining -/

/-- A failure of a call of the operating system. -/
def FromSystem (r : Except Failure Unit) : Prop :=
  ∀ e, r = .error e → ∃ operation error, e = .system operation error

theorem fromSystem_ok : FromSystem (.ok ()) := by
  intro e he
  cases he

theorem fromSystem_error (operation : Operation) (error : OsError) :
    FromSystem (.error (.system operation error)) := by
  intro e he
  cases he
  exact ⟨operation, error, rfl⟩

theorem fromSystem_present (s : Session) (segments : List Segment) :
    FromSystem (s.present segments).1 := by
  rcases s.present_result segments with hok | ⟨error, herr⟩
  · rw [hok]
    exact fromSystem_ok
  · rw [herr]
    exact fromSystem_error _ _

theorem Sound.handled_drain (h : s.Sound o) (hj : (j : Int) = s.board.current)
    (hlt : s.board.current < s.board.next) :
    s.Handled (s.drain j).2 ∧ FromSystem (s.drain j).1 := by
  obtain ⟨c, hc⟩ := h.child_of_lt (j := j) (by omega)
  rcases h.drain_cases hj hlt hc with ⟨e, heq, -⟩ | ⟨-, heq⟩ | ⟨-, -, heq⟩
  all_goals rw [heq]
  · exact ⟨s.handled_began j, fromSystem_error _ _⟩
  · exact ⟨((s.handled_began j).trans (handled_taken _ j)).trans (handled_showData _ _),
      fromSystem_present _ _⟩
  · exact ⟨((s.handled_began j).trans (handled_closed _ j _)).trans (handled_showEnd _),
      fromSystem_present _ _⟩

/-! ### Notices -/

/-- After a reaping that succeeds, nobody who has ended is left. -/
theorem Sound.cleared_reap (h : s.Sound o) {js : List Nat} (hok : s.reap.1 = .ok js) :
    s.reap.2.host.Cleared := by
  obtain ⟨hsound, hreap, hend⟩ := h.reap
  rw [hok] at hend
  cases hend with
  | all _ hrun =>
      intro i c hc hcoll
      have hmem : (Host.pidOf i, i) ∈ s.reap.2.board.running :=
        hsound.board.mem_running.2 ⟨rfl, hsound.unreaped_of_child hc hcoll⟩
      have hold : (Host.pidOf i, i) ∈ s.takeNotices.board.running := hreap.running _ hmem
      exact hrun _ hold hmem c hc

theorem Sound.handleNotices (h : s.Sound o) : s.handleNotices.2.Sound o ∧
    s.Handled s.handleNotices.2 ∧ FromSystem s.handleNotices.1 ∧
    s.handleNotices.2.board.current = s.board.current ∧
    (s.handleNotices.1 = .ok () → s.handleNotices.2.host.Cleared) := by
  obtain ⟨hsound, hreap, hend⟩ := h.reap
  have hhandled := h.handled_takeNotices.trans hreap.handled
  have hcurrent : s.reap.2.board.current = s.board.current := hreap.current
  have hclear := fun js (hok : s.reap.1 = .ok js) => h.cleared_reap hok
  unfold Session.handleNotices
  generalize s.reap = r at *
  obtain ⟨r, t⟩ := r
  dsimp only at *
  match r with
  | .error e =>
      cases hend
      exact ⟨hsound, hhandled, fromSystem_error _ _, hcurrent, fun hok => by cases hok⟩
  | .ok [] =>
      exact ⟨hsound, hhandled, fromSystem_ok, hcurrent, fun _ => hclear [] rfl⟩
  | .ok (j :: js) =>
      have hpresent := t.handled_present (t.display.onReaped t.board.finished t.board.started)
      refine ⟨hsound.present _, hhandled.trans hpresent, fromSystem_present _ _, ?_, fun _ =>
        (hclear _ rfl).handled hpresent.host⟩
      obtain ⟨accepted, calls, heq⟩ :=
        t.present_frame (t.display.onReaped t.board.finished t.board.started)
      show (t.present _).2.board.current = _
      rw [heq]
      exact hcurrent

/-! ### Both -/

/-- Handling what a wait found, whether it fails or not. -/
theorem Sound.handle (h : s.Sound o) (ready : Readiness) :
    (s.handle s.board.active ready).2.Sound o ∧ s.Handled (s.handle s.board.active ready).2 ∧
    FromSystem (s.handle s.board.active ready).1 ∧
    ((s.handle s.board.active ready).1 = .ok () → ready.notices = true ∨ s.host.Cleared →
      (s.handle s.board.active ready).2.host.Cleared) := by
  have hfirst : ∀ r t, (if ready.notices then s.handleNotices else (.ok (), s)) = (r, t) →
      t.Sound o ∧ s.Handled t ∧ FromSystem r ∧ t.board.current = s.board.current ∧
        (r = .ok () → ready.notices = true ∨ s.host.Cleared → t.host.Cleared) := by
    intro r t heq
    cases hn : ready.notices with
    | true =>
        rw [hn, if_pos rfl] at heq
        obtain ⟨hs, hh, hf, hc, hcl⟩ := h.handleNotices
        rw [heq] at hs hh hf hc hcl
        exact ⟨hs, hh, hf, hc, fun hok _ => hcl hok⟩
    | false =>
        rw [hn, if_neg (by decide)] at heq
        cases heq
        refine ⟨h, .of_host (.refl _) rfl rfl, fromSystem_ok, rfl, ?_⟩
        rintro - (hfalse | hclear)
        · cases hfalse
        · exact hclear
  unfold Session.handle
  generalize (if ready.notices then s.handleNotices else (.ok (), s)) = first at hfirst
  obtain ⟨r, t⟩ := first
  obtain ⟨hsound, hhandled, hsys, hcurrent, hclear⟩ := hfirst r t rfl
  match r with
  | .error e => exact ⟨hsound, hhandled, hsys, fun hok => by cases hok⟩
  | .ok () =>
      dsimp only
      by_cases hlt : s.board.current < s.board.next
      · rw [h.board.active_eq hlt]
        dsimp only
        cases ready.output with
        | false => exact ⟨hsound, hhandled, hsys, hclear⟩
        | true =>
            rw [if_pos rfl]
            have hnn := h.board.current_nonneg
            have hj : (s.board.current.toNat : Int) = t.board.current := by omega
            have hlt' : t.board.current < t.board.next := by rw [hcurrent, hhandled.next]; exact hlt
            obtain ⟨hd, hsys'⟩ := hsound.handled_drain hj hlt'
            exact ⟨hsound.drain hj hlt', hhandled.trans hd, hsys', fun _ hor =>
              (hclear rfl hor).handled hd.host⟩
      · have hle := h.board.current_le
        rw [Board.active_eq_none (by omega)]
        exact ⟨hsound, hhandled, hsys, hclear⟩

end Session

end OrderedJobs
