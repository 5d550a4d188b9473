import OrderedJobs.Host.Measure
import OrderedJobs.Session.Wait

/-! # Progress of a session

What a session has on hand is the output that waits in pipes, the notices, and the pipes still to be
closed.  Handling what a wait found takes away from it and lets nothing new happen, so a wait that
does not fail makes progress (`wait_progress`): it uses up a round of events, or else settles a
child, or else leaves less on hand. -/

namespace OrderedJobs

/-- The jobs whose output is still held. -/
def Board.opened (b : Board) : Nat := tally (fun job => job.output.isSome.toNat) b.jobs

namespace Session

/-- What a session has on hand. -/
def onHand (s : Session) : Nat := s.host.unread + s.board.opened

/-- Nothing new has happened between two sessions, and no more is on hand. -/
structure Quiet (s s' : Session) : Prop where
  rounds : s'.host.rounds = s.host.rounds
  unsettled : s'.host.unsettled = s.host.unsettled
  onHand : s'.onHand ≤ s.onHand
  jobs : s'.board.jobs.length = s.board.jobs.length
  exhausted : s'.board.exhausted = s.board.exhausted

theorem Quiet.refl (s : Session) : Quiet s s := ⟨rfl, rfl, Nat.le_refl _, rfl, rfl⟩

theorem Quiet.trans {s t u : Session} (h : Quiet s t) (k : Quiet t u) : Quiet s u :=
  ⟨k.rounds.trans h.rounds, k.unsettled.trans h.unsettled, Nat.le_trans k.onHand h.onHand,
    k.jobs.trans h.jobs, k.exhausted.trans h.exhausted⟩

/-! ### Writing and retiring -/

theorem quiet_present (s : Session) (segments : List Segment) :
    Quiet s (s.present segments).2 := by
  obtain ⟨accepted, calls, hw⟩ := Host.writeAll_frame (segments.flatMap Segment.bytes) s.host
  unfold present
  split
  all_goals
    next heq =>
    rw [heq] at hw
    dsimp only at hw
    subst hw
    exact ⟨rfl, rfl, Nat.le_refl _, rfl, rfl⟩

theorem retire_frame {b b' : Board} {j : Nat} (h : b.retire j = .ok b') :
    b'.opened = b.opened ∧ b'.jobs.length = b.jobs.length ∧ b'.exhausted = b.exhausted := by
  unfold Board.retire at h
  split at h
  · cases h; exact ⟨rfl, rfl, rfl⟩
  · split at h
    · cases h
    · split at h
      · cases h
      · cases h
        refine ⟨?_, ?_, rfl⟩
        · exact tally_modify_eq _ _ (by intro; rfl) _ _
        · simp [Board.updateJob, Board.setSlot]

theorem quiet_retireIf (s : Session) (condition : Job → Bool) (j : Nat) :
    Quiet s (s.retireIf condition j).2 := by
  unfold retireIf
  split
  · split
    · exact Quiet.refl s
    · next b hb =>
      obtain ⟨ho, hl, he⟩ := retire_frame hb
      exact ⟨rfl, rfl, by simp [onHand, ho], hl, he⟩
  · exact Quiet.refl s

/-! ### Reaping -/

theorem quiet_collect {s : Session} {pid : Int} {r : Except OsError (Option WaitStatus)} {h : Host}
    (hc : s.host.collect pid = (r, h)) : Quiet s { s with host := h } := by
  unfold Host.collect at hc
  split at hc
  · cases hc; exact Quiet.refl s
  · split at hc
    · cases hc; exact Quiet.refl s
    · split at hc
      · cases hc; exact Quiet.refl s
      · cases hc
        refine ⟨rfl, ?_, ?_, rfl, rfl⟩
        · exact tally_modify_eq _ _ (by intro; rfl) _ _
        · apply Nat.le_of_eq
          simp only [onHand, Host.unread, Host.updateChild]
          rw [tally_modify_eq (fun c : Child => c.waiting.length)
            (fun c => { c with collected := true }) (fun _ => rfl)]

theorem quiet_accountExit (s : Session) (pid : Int) (j : Nat) (status : WaitStatus) :
    Quiet s (s.accountExit pid j status).2 := by
  unfold accountExit
  refine Quiet.trans ?_ (quiet_retireIf _ _ _)
  refine ⟨rfl, rfl, ?_, ?_, rfl⟩
  · apply Nat.le_of_eq
    simp only [onHand, Board.opened, say, Board.recordExit, Board.unregister]
    rw [tally_modify_eq (fun job : Job => job.output.isSome.toNat)
      (fun job => { job with reaped := true }) (fun _ => rfl)]
  · simp [say, Board.recordExit, Board.unregister]

theorem quiet_reapEach (running : List (Int × Nat)) (s : Session) :
    Quiet s (reapEach running s).2 := by
  induction running generalizing s with
  | nil => exact Quiet.refl s
  | cons r rest ih =>
    obtain ⟨pid, j⟩ := r
    unfold reapEach
    split
    · next e h hc => exact quiet_collect hc
    · next h hc => exact (quiet_collect hc).trans (ih _)
    · next status h hc =>
      have ha := (quiet_collect hc).trans (quiet_accountExit { s with host := h } pid j status)
      split
      · next e t heq => rw [heq] at ha; exact ha
      · next t heq =>
        rw [heq] at ha
        have hr := ha.trans (ih t)
        split
        all_goals
          next heq' =>
          rw [heq'] at hr
          exact hr

/-- Handling notices takes all of them. -/
theorem handleNotices_progress (s : Session) :
    Quiet s s.handleNotices.2 ∧ s.handleNotices.2.onHand + s.host.notices ≤ s.onHand := by
  obtain ⟨misused, hm⟩ := s.host.useNotices_frame
  have htake : s.takeNotices.onHand + s.host.notices = s.onHand := by
    simp only [takeNotices, Host.takeNotices, hm, onHand, Host.unread]
    omega
  have hq : Quiet s s.takeNotices := by
    refine ⟨?_, ?_, by omega, rfl, rfl⟩
    · simp only [takeNotices, Host.takeNotices, hm]
    · simp only [takeNotices, Host.takeNotices, hm, Host.unsettled]
  have hr := quiet_reapEach s.board.running s.takeNotices
  suffices h : Quiet s.takeNotices s.handleNotices.2 from
    ⟨hq.trans h, by have := h.onHand; omega⟩
  unfold handleNotices
  change Quiet s.takeNotices s.reap.2 at hr
  split
  · next heq => rw [heq] at hr; exact hr
  · next heq => rw [heq] at hr; exact hr
  · next heq => rw [heq] at hr; exact hr.trans (quiet_present _ _)

/-! ### Draining -/

theorem read_progress {h h' : Host} {i limit : Nat} {data : Bytes}
    (hr : h.read i limit = (.ok data, h')) :
    h'.rounds = h.rounds ∧ h'.unsettled = h.unsettled ∧ h'.unread + data.length = h.unread := by
  unfold Host.read at hr
  split at hr
  · cases hr
  · next c hc =>
    split at hr
    · cases hr
    · split at hr
      · cases hr
      · split at hr
        · cases hr
        · cases hr
          refine ⟨rfl, tally_modify_eq _ _ (by intro; rfl) _ _, ?_⟩
          have := tally_modify (fun c : Child => c.waiting.length) (fun d => { d with
            passed := d.passed ++ d.waiting.take limit
            waiting := d.waiting.drop limit }) hc
          simp only [List.length_drop, List.length_take] at this ⊢
          simp only [Host.unread, Host.updateChild]
          omega

theorem quiet_closeOutput (s : Session) (child : Nat) :
    Quiet s { s with host := s.host.closeOutput child } := by
  unfold Host.closeOutput
  split
  · unfold Host.close
    split <;> exact ⟨rfl, rfl, Nat.le_refl _, rfl, rfl⟩
  · exact Quiet.refl s

theorem quiet_showData (s : Session) (data : Bytes) : Quiet s (s.showData data).2 :=
  Quiet.trans (t := { s with
      display := (s.display.onData data s.board.finished s.board.started).2 })
    ⟨rfl, rfl, Nat.le_refl _, rfl, rfl⟩ (quiet_present _ _)

theorem quiet_showEnd (s : Session) : Quiet s s.showEnd.2 :=
  Quiet.trans (t := { s with display := s.display.onEnd.2 })
    ⟨rfl, rfl, Nat.le_refl _, rfl, rfl⟩ (quiet_present _ _)

theorem opened_recordDrained {b : Board} {j : Nat} {job : Job} {child : Nat}
    (hj : b.jobs[j]? = some job) (ho : job.output = some child) :
    (b.recordDrained j).opened + 1 = b.opened := by
  have := tally_modify (fun job : Job => job.output.isSome.toNat) (fun job => { job with
    output := none, drained := true }) hj
  simp only [ho, Option.isSome_some, Bool.toNat_true, Option.isSome_none, Bool.toNat_false] at this
  simp only [Board.opened, Board.recordDrained, Board.updateJob]
  omega

theorem endOutput_progress (s : Session) {j : Nat} (job : Job) {child : Nat}
    (hj : (s.board.jobs[j]?).map Job.output = some (some child)) :
    Quiet s (s.endOutput j job child).2 ∧ (s.endOutput j job child).2.onHand < s.onHand := by
  obtain ⟨job', hj', ho⟩ := Option.map_eq_some_iff.1 hj
  have hc := quiet_closeOutput s child
  have ho := opened_recordDrained hj' ho
  let t : Session :=
    { s with host := s.host.closeOutput child, board := s.board.recordDrained j }
  have ht : Quiet s t ∧ t.onHand < s.onHand := by
    have := hc.onHand
    simp only [onHand] at this
    refine ⟨⟨hc.rounds, hc.unsettled, ?_, ?_, rfl⟩, ?_⟩
    · simp only [t, onHand]; omega
    · simp [t, Board.recordDrained, Board.updateJob]
    · simp only [t, onHand]; omega
  have hq : Quiet t (t.say (.drained job.index)) := ⟨rfl, rfl, Nat.le_refl _, rfl, rfl⟩
  have hr := hq.trans (quiet_retireIf (t.say (.drained job.index)) Job.reaped j)
  suffices h : Quiet t (s.endOutput j job child).2 from
    ⟨ht.1.trans h, Nat.lt_of_le_of_lt h.onHand ht.2⟩
  unfold endOutput
  dsimp only
  split
  · next heq => rw [heq] at hr; exact hr
  · next heq => rw [heq] at hr; exact hr.trans (quiet_showEnd _)

/-- Draining a job takes bytes from its pipe, or closes it. -/
theorem drain_progress {s s' : Session} {j : Nat} (hj : j < s.board.jobs.length)
    (hd : s.drain j = (.ok (), s')) : Quiet s s' ∧ s'.onHand < s.onHand := by
  unfold drain at hd
  rw [List.getElem?_eq_getElem hj] at hd
  dsimp only at hd
  split at hd
  · cases hd
  · next child hout =>
    split at hd
    · cases hd
    · let t : Session :=
        { s with board := s.board.updateJob j fun job => { job with stage := .draining } }
      have hopen : t.board.opened = s.board.opened :=
        tally_modify_eq _ _ (by intro; rfl) _ _
      have ht : Quiet s t := by
        refine ⟨rfl, rfl, Nat.le_of_eq ?_, ?_, rfl⟩
        · simp only [onHand, hopen, t]
        · simp [t, Board.updateJob]
      have hout' : (t.board.jobs[j]?).map Job.output = some (some child) := by
        simp [t, Board.updateJob, List.getElem?_eq_getElem hj, hout]
      split at hd
      · cases hd
      · next h hr =>
        obtain ⟨h₁, h₂, h₃⟩ := read_progress hr
        have h₄ : h.unread = s.host.unread := h₃
        have hq : Quiet s { t with host := h } :=
          ht.trans ⟨h₁, h₂, Nat.le_of_eq (congrArg (· + t.board.opened) h₄), rfl, rfl⟩
        have he := endOutput_progress { t with host := h } s.board.jobs[j] hout'
        rw [show endOutput { t with host := h } j s.board.jobs[j] child = _ from hd] at he
        exact ⟨hq.trans he.1, Nat.lt_of_lt_of_le he.2 hq.onHand⟩
      · next data h hne hr =>
        obtain ⟨h₁, h₂, h₃⟩ := read_progress hr
        have h₄ : h.unread + data.length = s.host.unread := h₃
        have hpos : 0 < data.length := List.length_pos_iff.2 hne
        have hlt : ({ t with host := h } : Session).onHand < t.onHand := by
          show h.unread + t.board.opened < s.host.unread + t.board.opened
          omega
        have hq : Quiet t { t with host := h } := ⟨h₁, h₂, Nat.le_of_lt hlt, rfl, rfl⟩
        have hs := quiet_showData { t with host := h } data
        rw [show showData { t with host := h } data = _ from hd] at hs
        exact ⟨(ht.trans hq).trans hs,
          Nat.lt_of_le_of_lt hs.onHand (Nat.lt_of_lt_of_le hlt ht.onHand)⟩

/-! ### Waiting -/

/-- What a wait found ready is taken off what is on hand. -/
theorem handle_progress {s s' : Session} {active : Option Nat} {ready : Readiness}
    (hn : ready.notices = true → 0 < s.host.notices)
    (ho : ready.output = true → ∃ j, active = some j ∧ j < s.board.jobs.length)
    (ha : ready.any = true) (h : s.handle active ready = (.ok (), s')) :
    Quiet s s' ∧ s'.onHand < s.onHand := by
  unfold handle at h
  have hp := handleNotices_progress s
  cases hready : ready.notices with
  | true =>
    have hpos := hn hready
    rw [hready, if_pos rfl] at h
    split at h
    · cases h
    · next t heq =>
      rw [heq] at hp
      have hlt : t.onHand < s.onHand := by have := hp.2; dsimp only at this; omega
      split at h
      · next j =>
        split at h
        · next hout =>
          obtain ⟨j', hj', hlen⟩ := ho hout
          cases hj'
          have hd := drain_progress (by rw [hp.1.jobs]; exact hlen) h
          exact ⟨hp.1.trans hd.1, Nat.lt_trans hd.2 hlt⟩
        · cases h; exact ⟨hp.1, hlt⟩
      · cases h; exact ⟨hp.1, hlt⟩
  | false =>
    rw [hready, if_neg (by decide)] at h
    dsimp only at h
    have hout : ready.output = true := by
      unfold Readiness.any at ha
      rw [hready, Bool.false_or] at ha
      exact ha
    obtain ⟨j, hj, hlen⟩ := ho hout
    subst hj
    dsimp only at h
    rw [if_pos hout] at h
    exact drain_progress hlen h

/-- A wait that does not fail uses up a round, or settles a child, or leaves less on hand. -/
theorem wait_progress {s s' : Session} (h : s.wait = (.ok (), s')) :
    s'.board.exhausted = s.board.exhausted ∧
      (s'.host.rounds.length < s.host.rounds.length ∨
        s'.host.rounds.length = s.host.rounds.length ∧
          (s'.host.unsettled < s.host.unsettled ∨
            s'.host.unsettled = s.host.unsettled ∧ s'.onHand < s.onHand)) := by
  unfold wait at h
  have hp := Host.poll_progress s.awaited s.host
  have hready : (s.host.poll s.awaited).1 =
      (s.host.poll s.awaited).2.readiness s.awaited := rfl
  dsimp only at h
  split at h
  · next hany =>
    have hh := handle_progress (s := { s with host := (s.host.poll s.awaited).2 })
      (by
        intro hn
        rw [hready] at hn
        exact of_decide_eq_true hn)
      (by
        intro hout
        rw [hready] at hout
        simp only [Host.readiness] at hout
        cases hact : s.board.active with
        | none => simp [awaited, hact] at hout
        | some j =>
          refine ⟨j, rfl, ?_⟩
          by_cases hlen : j < s.board.jobs.length
          · exact hlen
          · rw [awaited, hact, Option.bind_some, List.getElem?_eq_none (by omega)] at hout
            simp at hout)
      hany h
    obtain ⟨hq, hlt⟩ := hh
    refine ⟨hq.exhausted, ?_⟩
    rw [hq.rounds, hq.unsettled]
    rcases hp with hp | ⟨hr, hp | ⟨hu, hp⟩⟩
    · exact .inl hp
    · exact .inr ⟨hr, .inl hp⟩
    · refine .inr ⟨hr, .inr ⟨hu, ?_⟩⟩
      simp only [onHand] at hlt ⊢
      omega
  · cases h

end Session

end OrderedJobs
