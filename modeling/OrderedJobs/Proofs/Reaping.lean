import OrderedJobs.Proofs.SessionSound

/-! # Reaping

A reaping asks for every running child in the order of their launch.  Of a child that has ended the
status is handed out and accounted for (`Session.exited`); a child that runs is passed over; and at
a child that cannot be waited for the reaping stops.  Whatever its outcome, it leaves a sound
session in which only collected children differ (`Reaping`), and when it succeeds no child that has
ended is left among the running (`Sound.reapEach`). -/

namespace OrderedJobs

namespace Host

variable {h : Host} {j : Nat} {c : Child}

/-- The host after the status of a child was handed out. -/
def handedOut (h : Host) (j : Nat) : Host :=
  { h.updateChild j fun c => { c with collected := true } with
    collections := h.collections ++ [j] }

theorem collect_lost (hj : h.childOf (pidOf j) = some j) (hc : h.children[j]? = some c)
    (hlost : j ∈ h.platform.faults.lost) : h.collect (pidOf j) = (.error .noChild, h) := by
  unfold collect
  rw [hj, Option.bind_some, hc, Option.map_some]
  exact if_pos (.inr hlost)

theorem collect_running (hj : h.childOf (pidOf j) = some j) (hc : h.children[j]? = some c)
    (hlost : j ∉ h.platform.faults.lost) (hcoll : c.collected = false) (hs : c.status = none) :
    h.collect (pidOf j) = (.ok none, h) := by
  unfold collect
  rw [hj, Option.bind_some, hc, Option.map_some]
  simp [hcoll, hlost, hs]

theorem collect_ended {status : WaitStatus} (hj : h.childOf (pidOf j) = some j)
    (hc : h.children[j]? = some c) (hlost : j ∉ h.platform.faults.lost)
    (hcoll : c.collected = false) (hs : c.status = some status) :
    h.collect (pidOf j) = (.ok (some status), h.handedOut j) := by
  unfold collect handedOut
  rw [hj, Option.bind_some, hc, Option.map_some]
  simp [hcoll, hlost, hs]

theorem children_handedOut (h : Host) (j k : Nat) :
    (h.handedOut j).children[k]? =
      (h.children[k]?).map fun c => if j = k then { c with collected := true } else c :=
  children_updateChild h j k _

theorem HandedOnce.handedOut (h' : h.HandedOnce) (hc : h.children[j]? = some c)
    (hcoll : c.collected = false) : (h.handedOut j).HandedOnce where
  nodup := by
    show (h.collections ++ [j]).Nodup
    rw [List.nodup_append]
    refine ⟨h'.nodup, List.pairwise_singleton _ j, fun a ha b hb => ?_⟩
    rw [List.mem_singleton.1 hb]
    rintro rfl
    have := (h'.mem a).1 ha
    rw [hc, Option.any_some, hcoll] at this
    cases this
  mem := by
    intro i
    show i ∈ h.collections ++ [j] ↔ _
    rw [List.mem_append, List.mem_singleton, h'.mem, children_handedOut]
    by_cases hji : j = i
    · subst hji
      simp [hc]
    · have hij : ¬ i = j := fun heq => hji heq.symm
      cases h.children[i]? <;> simp [hij, hji]

end Host

namespace Session

variable {s s' t : Session} {o : Holdings} {j : Nat} {c : Child} {status : WaitStatus}

/-- The session after the end of the `j`-th child was accounted for. -/
def exited (s : Session) (j : Nat) (status : WaitStatus) : Session :=
  let b := s.board.recordExit (Host.pidOf j) j status
  { s with
    host := s.host.handedOut j
    board := b.settled j
    journal := s.journal ++ [.reaped j (Host.pidOf j) status b.exitCode] }

/-! ### One child -/

theorem Sound.ledger_exited (h : s.Sound o) (hc : s.host.children[j]? = some c)
    (hcoll : c.collected = false) (hs : c.status = some status) :
    (s.exited j status).Ledger := by
  have hstatus : ∀ i : Nat, ((s.exited j status).host.children[i]?).bind Child.status =
      (s.host.children[i]?).bind Child.status := by
    intro i
    show ((s.host.handedOut j).children[i]?).bind _ = _
    rw [Host.children_handedOut]
    cases s.host.children[i]? with
    | none => rfl
    | some c => by_cases hji : j = i <;> simp [hji]
  have hexits : (s.exited j status).journal.exits = s.journal.exits ++ [(Host.pidOf j, status)] :=
    Journal.exits_append _ _
  have hcoll' : (s.exited j status).host.collections = s.host.collections ++ [j] := rfl
  constructor
  case toHandedOnce => exact h.ledger.toHandedOnce.handedOut hc hcoll
  case exits =>
    rw [hexits, hcoll', List.map_append, List.map_append, h.ledger.exits]
    congr 1
    · exact List.map_congr_left fun i _ => by rw [hstatus i]
    · simp only [List.map_cons, List.map_nil]
      rw [hstatus j, hc, Option.bind_some, hs]
  case exitCode =>
    have hcode : (s.exited j status).board.exitCode =
        WaitStatus.fold s.board.exitCode status := Board.settled_exitCode _ _
    rw [hcode, hexits, List.map_append, List.foldl_append, h.ledger.exitCode]
    rfl
  case finished =>
    have hfin : (s.exited j status).board.finished = s.board.finished + 1 :=
      Board.settled_finished _ _
    rw [hfin, hexits, List.length_append, h.ledger.finished]
    rfl

theorem current_exited (s : Session) (j : Nat) (status : WaitStatus) :
    (s.exited j status).board.current = s.board.current := Board.settled_current _ _

theorem next_exited (s : Session) (j : Nat) (status : WaitStatus) :
    (s.exited j status).board.next = s.board.next := Board.settled_next _ _

theorem reaped_exited (s : Session) (j i : Nat) (status : WaitStatus) :
    ((s.exited j status).board.jobs[i]?).map Job.reaped =
      (s.board.jobs[i]?).map fun job => if j = i then true else job.reaped := by
  show ((Board.settled _ j).jobs[i]?).map Job.reaped = _
  rw [Board.settled_reaped, Board.recordExit, List.getElem?_modify]
  cases s.board.jobs[i]? with
  | none => rfl
  | some job => by_cases hji : j = i <;> simp [hji]

/-- The child collected and its job fit together again, and the others still do. -/
theorem Sound.fits_exited (h : s.Sound o) (hc : s.host.children[j]? = some c)
    (hs : c.status = some status) {i : Nat} {c' : Child}
    (hc' : (s.exited j status).host.children[i]? = some c') :
    (s.exited j status).board.Fits i c' o := by
  have hcurrent := s.current_exited j status
  have hc' : (s.host.handedOut j).children[i]? = some c' := hc'
  rw [Host.children_handedOut] at hc'
  obtain ⟨old, hold, rfl⟩ := Option.map_eq_some_iff.1 hc'
  have hfits := h.fits i old hold
  by_cases hji : j = i
  · subst hji
    rw [hc] at hold
    cases hold
    rw [if_pos rfl]
    refine ⟨hfits.pipe, ?_, fun _ => ?_, hcurrent ▸ hfits.drained, hcurrent ▸ hfits.unread⟩
    · obtain ⟨job, hjob, -⟩ := Option.map_eq_some_iff.1 hfits.reaped
      rw [reaped_exited, hjob]
      simp
    · rw [hs]
      exact Option.some_ne_none status
  · rw [if_neg hji]
    refine ⟨hfits.pipe, ?_, hfits.ended, hcurrent ▸ hfits.drained, hcurrent ▸ hfits.unread⟩
    rw [reaped_exited]
    simpa [hji] using hfits.reaped

theorem Sound.exited (h : s.Sound o) (hj : j ∈ s.board.unreaped)
    (hc : s.host.children[j]? = some c) (hs : c.status = some status) :
    (s.exited j status).Sound o where
  board := h.board.reap hj status
  children := by
    show ((s.host.handedOut j).children.length) = (Board.settled _ j).jobs.length
    rw [Board.settled_length, Host.handedOut, Host.updateChild, List.length_modify,
      Board.recordExit, List.length_modify, h.children]
  fits := fun i c' hc' => h.fits_exited hc hs hc'
  descriptors := by
    unfold Board.openEnds
    rw [current_exited, next_exited]
    exact h.descriptors
  misused := h.misused
  wakeup := h.wakeup
  ledger := by
    obtain ⟨c', hc', hcoll⟩ := h.child_of_unreaped hj
    rw [hc] at hc'
    cases hc'
    exact h.ledger_exited hc hcoll hs

/-- No guard of the book-keeping stands in the way of accounting for an exit. -/
theorem accountExit_eq (h : s.board.Sound) (hj : j ∈ s.board.unreaped) (status : WaitStatus) :
    accountExit { s with host := s.host.handedOut j } (Host.pidOf j) j status =
      (.ok (), s.exited j status) := by
  obtain ⟨job, hjob, hr⟩ := Board.mem_unreaped.1 hj
  have hget := Board.getElem?_recordExit hjob (Host.pidOf j) status
  have hindex : ((s.board.recordExit (Host.pidOf j) j status).jobs[j]?).elim 0 Job.index =
      (j : Int) := by
    rw [hget]
    exact (h.kept j job hjob).index
  unfold accountExit
  dsimp only
  rw [hindex]
  cases hd : job.drained with
  | true => exact retireIf_of_true hget hd (h.retire_recordExit hjob hr hd status)
  | false =>
      have hd' : ({ job with reaped := true } : Job).drained = false := hd
      rw [retireIf_of_false hget hd']
      unfold Session.exited
      dsimp only
      rw [Board.settled_eq_self hget (by simp [hd])]
      rfl

/-! ### All of them -/

/-- What a reaping leaves alone. -/
structure Reaping (s s' : Session) : Prop where
  display : s'.display = s.display
  limits : s'.board.limits = s.board.limits
  current : s'.board.current = s.board.current
  next : s'.board.next = s.board.next
  exhausted : s'.board.exhausted = s.board.exhausted
  commands : ∀ k : Nat,
    (s'.board.jobs[k]?).map Job.command = (s.board.jobs[k]?).map Job.command
  running : ∀ x ∈ s'.board.running, x ∈ s.board.running
  host : s'.host = { s.host with
    children := s'.host.children
    collections := s'.host.collections }
  length : s'.host.children.length = s.host.children.length
  child : ∀ (i : Nat) (c' : Child), s'.host.children[i]? = some c' →
    ∃ c, s.host.children[i]? = some c ∧ (c' = c ∨ c' = { c with collected := true })

theorem Reaping.refl (s : Session) : Reaping s s :=
  ⟨rfl, rfl, rfl, rfl, rfl, fun _ => rfl, fun _ => id, rfl, rfl, fun _ c hc => ⟨c, hc, .inl rfl⟩⟩

theorem Reaping.trans (h : Reaping s t) (k : Reaping t s') : Reaping s s' where
  display := k.display.trans h.display
  limits := k.limits.trans h.limits
  current := k.current.trans h.current
  next := k.next.trans h.next
  exhausted := k.exhausted.trans h.exhausted
  commands := fun j => (k.commands j).trans (h.commands j)
  running := fun x hx => h.running x (k.running x hx)
  host := by
    have hk := k.host
    rw [h.host] at hk
    exact hk
  length := k.length.trans h.length
  child := by
    intro i c'' hc''
    obtain ⟨c', hc', hor'⟩ := k.child i c'' hc''
    obtain ⟨c, hc, hor⟩ := h.child i c' hc'
    refine ⟨c, hc, ?_⟩
    rcases hor with rfl | rfl
    · exact hor'
    · rcases hor' with rfl | rfl <;> exact .inr rfl

theorem reaping_exited (s : Session) (j : Nat) (status : WaitStatus) :
    Reaping s (s.exited j status) where
  display := rfl
  limits := Board.settled_limits _ _
  current := s.current_exited j status
  next := s.next_exited j status
  exhausted := Board.settled_exhausted _ _
  commands := fun k => (Board.settled_command _ j k).trans
    (Board.map_modify (f := fun job => { job with reaped := true }) (fun _ => rfl) _ k)
  running := by
    intro x hx
    have hx : x ∈ (Board.settled _ j).running := hx
    rw [Board.settled_running] at hx
    exact (List.mem_filter.1 hx).1
  host := rfl
  length := List.length_modify ..
  child := by
    intro i c' hc'
    have hc' : (s.host.handedOut j).children[i]? = some c' := hc'
    rw [Host.children_handedOut] at hc'
    obtain ⟨c, hc, rfl⟩ := Option.map_eq_some_iff.1 hc'
    refine ⟨c, hc, ?_⟩
    by_cases hji : j = i
    · rw [if_pos hji]
      exact .inr rfl
    · rw [if_neg hji]
      exact .inl rfl

/-- How asking for a list of children ends. -/
inductive ReapEnd (s s' : Session) (l : List (Int × Nat)) : Except Failure (List Nat) → Prop
  /-- One of them cannot be waited for. -/
  | lost {pid : Int} {j : Nat} (hmem : (pid, j) ∈ l) (hlost : j ∈ s.host.platform.faults.lost) :
      ReapEnd s s' l (.error (.system (.wait pid) .noChild))
  /-- Those of them that still run have not ended. -/
  | all (js : List Nat) (hrun : ∀ x ∈ l, x ∈ s'.board.running →
      ∀ c, s'.host.children[x.2]? = some c → c.status = none) : ReapEnd s s' l (.ok js)

section each

variable {rest : List (Int × Nat)}

/-- What asking for a running child gives, and what it does. -/
theorem Sound.collect_eq (h : s.Sound o) (hj : j ∈ s.board.unreaped)
    (hc : s.host.children[j]? = some c) : s.host.collect (Host.pidOf j) =
      if j ∈ s.host.platform.faults.lost then (.error .noChild, s.host)
      else (.ok c.status, c.status.elim s.host fun _ => s.host.handedOut j) := by
  obtain ⟨c', hc', hcoll⟩ := h.child_of_unreaped hj
  rw [hc] at hc'
  cases hc'
  have hlt : (j : Int) < s.board.next := by
    have := (List.getElem?_eq_some_iff.1 hc).1
    have := h.length_eq
    omega
  have hpid := h.childOf hlt
  by_cases hlost : j ∈ s.host.platform.faults.lost
  · rw [if_pos hlost, Host.collect_lost hpid hc hlost]
  · rw [if_neg hlost]
    cases hs : c.status with
    | none => exact Host.collect_running hpid hc hlost hcoll hs
    | some status => exact Host.collect_ended hpid hc hlost hcoll hs

/-- Asking for a running child: it cannot be waited for, or it has not ended, or its status is
handed out. -/
theorem Sound.collect_cases (h : s.Sound o) (hj : j ∈ s.board.unreaped) :
    ∃ c, s.host.children[j]? = some c ∧
      ((j ∈ s.host.platform.faults.lost ∧
          s.host.collect (Host.pidOf j) = (.error .noChild, s.host)) ∨
        (c.status = none ∧ s.host.collect (Host.pidOf j) = (.ok none, s.host)) ∨
        ∃ status, c.status = some status ∧
          s.host.collect (Host.pidOf j) = (.ok (some status), s.host.handedOut j)) := by
  obtain ⟨c, hc, -⟩ := h.child_of_unreaped hj
  refine ⟨c, hc, ?_⟩
  rw [h.collect_eq hj hc]
  by_cases hlost : j ∈ s.host.platform.faults.lost
  · exact .inl ⟨hlost, if_pos hlost⟩
  right
  rw [if_neg hlost]
  cases hs : c.status with
  | none => exact .inl ⟨rfl, rfl⟩
  | some status => exact .inr ⟨status, rfl, rfl⟩

theorem mem_running_exited {x : Int × Nat} (hx : x ∈ s.board.running) (hne : x.1 ≠ Host.pidOf j) :
    x ∈ (s.exited j status).board.running := by
  show x ∈ (Board.settled _ j).running
  rw [Board.settled_running]
  exact List.mem_filter.2 ⟨hx, bne_iff_ne.2 hne⟩

theorem reapEach_ended (h : s.board.Sound) (hj : j ∈ s.board.unreaped)
    (hcollect : s.host.collect (Host.pidOf j) = (.ok (some status), s.host.handedOut j)) :
    Session.reapEach ((Host.pidOf j, j) :: rest) s =
      ((Session.reapEach rest (s.exited j status)).1.map (j :: ·),
        (Session.reapEach rest (s.exited j status)).2) := by
  rw [Session.reapEach, hcollect]
  dsimp only
  rw [accountExit_eq h hj status]
  dsimp only
  rcases Session.reapEach rest (s.exited j status) with ⟨e | js, t⟩ <;> rfl

theorem Sound.reapEach_cons (h : s.Sound o) (hj : j ∈ s.board.unreaped)
    (hc : s.host.children[j]? = some c) :
    Session.reapEach ((Host.pidOf j, j) :: rest) s =
      if j ∈ s.host.platform.faults.lost then
        (.error (.system (.wait (Host.pidOf j)) .noChild), s)
      else
        match c.status with
        | none => Session.reapEach rest s
        | some status => ((Session.reapEach rest (s.exited j status)).1.map (j :: ·),
            (Session.reapEach rest (s.exited j status)).2) := by
  have hcollect := h.collect_eq hj hc
  by_cases hlost : j ∈ s.host.platform.faults.lost
  · rw [if_pos hlost] at hcollect ⊢
    rw [Session.reapEach, hcollect]
  · rw [if_neg hlost] at hcollect ⊢
    cases hs : c.status with
    | none =>
        rw [hs] at hcollect
        rw [Session.reapEach, hcollect]
        rfl
    | some status =>
        rw [hs] at hcollect
        exact reapEach_ended h.board hj hcollect

end each

theorem ReapEnd.cons {x : Int × Nat} {l : List (Int × Nat)} {r : Except Failure (List Nat)}
    (h : ReapEnd t s' l r) (hlost : t.host.platform = s.host.platform)
    (hx : x ∈ s'.board.running → ∀ c, s'.host.children[x.2]? = some c → c.status = none)
    (f : List Nat → List Nat) : ReapEnd s s' (x :: l) (r.map f) := by
  cases h with
  | lost hmem hl =>
      rw [hlost] at hl
      exact .lost (List.mem_cons_of_mem _ hmem) hl
  | all js hrun =>
      refine .all (f js) fun y hy => ?_
      rcases List.mem_cons.1 hy with rfl | hy
      · exact hx
      · exact hrun y hy

/-- Asking for some of the running children: by induction on their list, for any session in which
they all run still. -/
theorem Sound.reapEach (l : List (Int × Nat)) (h : s.Sound o) (hl : ∀ x ∈ l, x ∈ s.board.running)
    (hn : (l.map Prod.fst).Nodup) : (Session.reapEach l s).2.Sound o ∧
      Reaping s (Session.reapEach l s).2 ∧
      ReapEnd s (Session.reapEach l s).2 l (Session.reapEach l s).1 := by
  induction l generalizing s with
  | nil => exact ⟨h, Reaping.refl s, .all [] fun x hx => absurd hx List.not_mem_nil⟩
  | cons x rest ih =>
      obtain ⟨pid, j⟩ := x
      obtain ⟨rfl, hj⟩ := h.board.mem_running.1 (hl _ List.mem_cons_self)
      have hrest : ∀ x ∈ rest, x ∈ s.board.running := fun x hx => hl x (List.mem_cons_of_mem _ hx)
      rw [List.map_cons, List.nodup_cons] at hn
      obtain ⟨c, hc, ⟨hlost, hcollect⟩ | ⟨hs, hcollect⟩ | ⟨status, hs, hcollect⟩⟩ :=
        h.collect_cases hj
      · rw [Session.reapEach, hcollect]
        exact ⟨h, Reaping.refl s, .lost List.mem_cons_self hlost⟩
      · rw [Session.reapEach, hcollect]
        obtain ⟨hsound, hreap, hend⟩ := ih h hrest hn.2
        refine ⟨hsound, hreap, ?_⟩
        have hx : ∀ c', (Session.reapEach rest s).2.host.children[j]? = some c' →
            c'.status = none := by
          intro c' hc'
          obtain ⟨old, hold, hor⟩ := hreap.child j c' hc'
          rw [hc] at hold
          cases hold
          rcases hor with rfl | rfl <;> exact hs
        have := hend.cons (s := s) (x := (Host.pidOf j, j)) rfl (fun _ => hx) id
        dsimp only
        rcases hr : (Session.reapEach rest s).1 with e | js
        all_goals rw [hr] at this; exact this
      · rw [reapEach_ended h.board hj hcollect]
        have hrest' : ∀ x ∈ rest, x ∈ (s.exited j status).board.running := fun x hx =>
          mem_running_exited (hrest x hx) fun heq => hn.1 (List.mem_map.2 ⟨x, hx, heq⟩)
        obtain ⟨hsound, hreap, hend⟩ := ih (h.exited hj hc hs) hrest' hn.2
        -- A child that was accounted for does not run any more.
        have hgone : (Host.pidOf j, j) ∉
            (Session.reapEach rest (s.exited j status)).2.board.running := by
          intro hmem
          have hmem : _ ∈ (Board.settled _ j).running := hreap.running _ hmem
          rw [Board.settled_running] at hmem
          exact bne_iff_ne.1 (List.mem_filter.1 hmem).2 rfl
        exact ⟨hsound, (reaping_exited s j status).trans hreap,
          hend.cons (s := s) rfl (fun hmem => absurd hmem hgone) (j :: ·)⟩

theorem Sound.takeNotices_eq (h : s.Sound o) :
    s.takeNotices = { s with host := { s.host with notices := 0 } } := by
  unfold Session.takeNotices Host.takeNotices
  rw [h.useNotices_eq]

theorem Sound.takeNotices (h : s.Sound o) : s.takeNotices.Sound o := by
  rw [h.takeNotices_eq]
  exact h.congr_host rfl rfl rfl rfl rfl

/-- What a reaping of all running children comes to. -/
theorem Sound.reap (h : s.Sound o) : s.reap.2.Sound o ∧ Reaping s.takeNotices s.reap.2 ∧
    ReapEnd s s.reap.2 s.board.running s.reap.1 := by
  have htake := h.takeNotices
  obtain ⟨hsound, hreap, hend⟩ :=
    htake.reapEach s.board.running (fun x hx => hx) h.board.nodup_running
  refine ⟨hsound, hreap, ?_⟩
  have hplatform : s.takeNotices.host.platform = s.host.platform := by
    rw [h.takeNotices_eq]
  unfold Session.reap
  revert hend
  generalize Session.reapEach s.board.running s.takeNotices = r
  obtain ⟨r, t⟩ := r
  intro hend
  cases hend with
  | lost hmem hlost =>
      rw [hplatform] at hlost
      exact .lost hmem hlost
  | all js hrun => exact .all js hrun

end Session

end OrderedJobs
