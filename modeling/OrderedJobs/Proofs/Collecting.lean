import OrderedJobs.Proofs.Termination

/-! # Collecting every child

No end of a child is lost, however many notices coalesce: whenever a run waits, a child that it
believes running but that has ended has left a notice.  So every child is collected.  It is
collected once and its status is accounted for at most once, also when the run is abandoned: what is
collected then (`Session.GivenUp`) was not collected before and does not count. -/

namespace OrderedJobs

namespace Host

variable {h h' : Host}

/-- Some more statuses may have been handed out, each once. -/
structure HandsOut (h h' : Host) : Prop where
  once : h.HandedOnce → h'.HandedOnce
  grows : h.collections <+: h'.collections

theorem HandsOut.refl (h : Host) : h.HandsOut h := ⟨id, List.prefix_refl _⟩

theorem HandsOut.trans {h₁ h₂ h₃ : Host} (h : h₁.HandsOut h₂) (k : h₂.HandsOut h₃) :
    h₁.HandsOut h₃ :=
  ⟨fun ho => k.once (h.once ho), h.grows.trans k.grows⟩

/-- Nothing was handed out. -/
theorem HandsOut.of_eq (hcoll : h'.collections = h.collections)
    (hchildren : h'.children = h.children) : h.HandsOut h' where
  once := fun ho => ho.congr hcoll fun i => by rw [hchildren]
  grows := hcoll ▸ List.prefix_refl _

theorem HandsOut.later (hl : h.Later h') : h.HandsOut h' where
  once := fun ho => ho.congr hl.collections hl.any_collected
  grows := hl.collections ▸ List.prefix_refl _

theorem HandsOut.foldl {α : Type} {f : Host → α → Host}
    (hf : ∀ (h : Host) (x : α), h.HandsOut (f h x)) (l : List α) (h : Host) :
    h.HandsOut (l.foldl f h) := by
  induction l generalizing h with
  | nil => exact .refl h
  | cons x l ih => exact (hf h x).trans (ih _)

theorem handsOut_close (h : Host) (d : Descriptor) : h.HandsOut (h.close d) := by
  obtain ⟨descriptors, misused, heq⟩ := h.close_frame d
  rw [heq]
  exact .of_eq rfl rfl

theorem handsOut_closeOutput (h : Host) (i : Nat) : h.HandsOut (h.closeOutput i) := by
  unfold closeOutput
  split
  · exact h.handsOut_close _
  · exact .refl h

theorem handsOut_kill (h : Host) (pid : Int) (signal : Nat) : h.HandsOut (h.kill pid signal) := by
  have hsent : h.HandsOut { h with kills := h.kills ++ [(h.childOf pid, signal)] } :=
    .of_eq rfl rfl
  unfold kill
  dsimp only
  split
  · exact hsent
  · next i _ =>
      split
      · exact hsent
      · exact hsent.trans (.later (later_occur _ (.finish i signal false)))

theorem handsOut_collect (h : Host) (pid : Int) : h.HandsOut (h.collect pid).2 := by
  unfold collect
  split
  · exact .refl h
  · next i c hc =>
      obtain ⟨k, -, hk⟩ := Option.bind_eq_some_iff.1 hc
      obtain ⟨c', hc', heq⟩ := Option.map_eq_some_iff.1 hk
      cases heq
      split
      · exact .refl h
      · next hnot =>
          split
          · exact .refl h
          · refine ⟨fun ho => ho.handedOut hc' ?_, List.prefix_append _ _⟩
            rw [← Bool.not_eq_true]
            exact fun hcoll => hnot (.inl hcoll)

end Host

/-! ### Abandoning and ending -/

namespace Session

/-- What giving up on a session leaves of its accounts. -/
structure GivenUp (s s' : Session) : Prop where
  host : s.host.HandsOut s'.host
  exits : s'.journal.exits = s.journal.exits
  exitCode : s'.board.exitCode = s.board.exitCode
  finished : s'.board.finished = s.board.finished

theorem GivenUp.trans {s t u : Session} (h : s.GivenUp t) (k : t.GivenUp u) : s.GivenUp u :=
  ⟨h.host.trans k.host, k.exits.trans h.exits, k.exitCode.trans h.exitCode,
    k.finished.trans h.finished⟩

theorem givenUp_say (s : Session) {r : Record} (hr : Journal.exits [r] = []) :
    s.GivenUp (s.say r) := by
  refine ⟨.refl _, ?_, rfl, rfl⟩
  show Journal.exits (s.journal ++ [r]) = _
  rw [Journal.exits_append, hr, List.append_nil]

theorem givenUp_collectKilled (s : Session) (pid : Int) : s.GivenUp (s.collectKilled pid) := by
  have hcollect := s.host.handsOut_collect pid
  unfold collectKilled
  dsimp only
  split
  · next e h heq =>
      rw [heq] at hcollect
      have hsay := ({ s with host := h } : Session).givenUp_say (r := .alreadyCollected pid) rfl
      exact ⟨hcollect.trans hsay.host, hsay.exits, rfl, rfl⟩
  · next status h heq =>
      rw [heq] at hcollect
      exact ⟨hcollect, rfl, rfl, rfl⟩

theorem givenUp_killAll (s : Session) : s.GivenUp s.killAll := by
  have hfold : ∀ (pids : List Int) (t : Session), t.GivenUp (pids.foldl collectKilled t) := by
    intro pids
    induction pids with
    | nil => exact fun t => ⟨.refl _, rfl, rfl, rfl⟩
    | cons pid pids ih => exact fun t => (t.givenUp_collectKilled pid).trans (ih _)
  let pids := s.board.running.map (·.1)
  let killed : Session :=
    { s with host := pids.foldl (fun h pid => h.kill pid Signal.terminate) s.host }
  have hkill : s.GivenUp killed :=
    ⟨.foldl (fun h pid => h.handsOut_kill pid _) _ _, rfl, rfl, rfl⟩
  exact hkill.trans (hfold pids killed)

theorem givenUp_abandon (s : Session) : s.GivenUp s.abandon := by
  have hsay := s.givenUp_say (r := .aborting) rfl
  have hdrop : (s.say .aborting).GivenUp (s.say .aborting).dropOutputs :=
    ⟨.foldl Host.handsOut_closeOutput _ _, rfl, rfl, rfl⟩
  exact (hsay.trans hdrop).trans (givenUp_killAll _)

/-- The accounts of a session: each exit that counts was collected, the exits that count were
collected first, and nothing was collected or counted twice. -/
structure Accounts (s : Session) : Prop extends Host.HandedOnce s.host where
  exits : s.journal.exits.map Prod.fst <+: s.host.collections.map Host.pidOf
  exitCode : s.board.exitCode = (s.journal.exits.map Prod.snd).foldl WaitStatus.fold 0
  finished : s.board.finished = s.journal.exits.length

theorem Ledger.exits_fst {s : Session} (h : s.Ledger) :
    s.journal.exits.map Prod.fst = s.host.collections.map Host.pidOf := by
  have := congrArg (List.map Prod.fst) h.exits
  rw [List.map_map, List.map_map] at this
  exact this

theorem Ledger.accounts {s : Session} (h : s.Ledger) : s.Accounts where
  toHandedOnce := h.toHandedOnce
  exits := h.exits_fst ▸ List.prefix_refl _
  exitCode := h.exitCode
  finished := h.finished

theorem Accounts.givenUp {s s' : Session} (h : s.Accounts) (hg : s.GivenUp s') : s'.Accounts where
  toHandedOnce := hg.host.once h.toHandedOnce
  exits := by
    rw [hg.exits]
    exact h.exits.trans (hg.host.grows.map Host.pidOf)
  exitCode := by rw [hg.exitCode, hg.exits, h.exitCode]
  finished := by rw [hg.finished, hg.exits, h.finished]

theorem Accounts.nodup_exits {s : Session} (h : s.Accounts) :
    (s.journal.exits.map Prod.fst).Nodup := by
  apply List.Nodup.sublist h.exits.sublist
  exact List.Pairwise.map _ (fun i k hne heq => hne (Board.pidOf_inj.1 heq)) h.nodup

/-- When nothing runs any more, every child was collected, once. -/
theorem Sound.all_collected {s : Session} (h : s.Sound) (hrun : s.board.running = []) :
    s.host.collections.Perm (List.range s.host.children.length) := by
  refine (List.perm_ext_iff_of_nodup h.ledger.nodup List.nodup_range).2 fun i => ?_
  rw [h.ledger.mem, List.mem_range]
  constructor
  · intro hany
    obtain ⟨c, hc, -⟩ := (Option.any_eq_true ..).1 hany
    exact (List.getElem?_eq_some_iff.1 hc).1
  · intro hlt
    have hc := List.getElem?_eq_getElem hlt
    rw [hc, Option.any_some]
    cases hcoll : s.host.children[i].collected with
    | true => rfl
    | false =>
        have := h.unreaped_of_child hc hcoll
        rw [Board.unreaped_eq_nil h.board.toCounts hrun] at this
        exact absurd this List.not_mem_nil

end Session

namespace Run

theorem givenUp_remove (s : Session) (n : Notifier) :
    s.GivenUp { s with host := n.remove s.host } := by
  obtain ⟨descriptors, misused, heq⟩ := n.remove_frame s.host
  rw [heq]
  exact ⟨.of_eq rfl rfl, rfl, rfl, rfl⟩

theorem givenUp_conclude (r : Run) : r.session.GivenUp r.conclude.2.session := by
  obtain ⟨accepted, calls, heq⟩ := r.session.present_frame r.session.display.onFinish
  have hpresent : r.session.GivenUp r.session.finish.2 := by
    unfold Session.finish
    rw [heq]
    exact ⟨.of_eq rfl rfl, rfl, rfl, rfl⟩
  unfold conclude
  split
  · next e s hfinish =>
      rw [hfinish] at hpresent
      exact hpresent
  · next s hfinish =>
      rw [hfinish] at hpresent
      exact hpresent.trans (s.givenUp_say rfl)

/-! ### The end of a run -/

/-- Ending a run changes neither the board nor what became of its children. -/
structure Ended (s s' : Session) : Prop where
  board : s'.board = s.board
  children : s'.host.children = s.host.children
  collections : s'.host.collections = s.host.collections
  exits : s'.journal.exits = s.journal.exits

theorem ended_conclude (r : Run) (n : Notifier) :
    Ended r.session (r.onHost n.remove).conclude.2.session := by
  have hremove : (n.remove r.session.host).children = r.session.host.children ∧
      (n.remove r.session.host).collections = r.session.host.collections := by
    obtain ⟨descriptors, misused, heq⟩ := n.remove_frame r.session.host
    rw [heq]
    exact ⟨rfl, rfl⟩
  let t := (r.onHost n.remove).session
  obtain ⟨accepted, calls, heq⟩ := t.present_frame t.display.onFinish
  have hfinish : Ended r.session t.finish.2 := by
    unfold Session.finish
    rw [heq]
    exact ⟨rfl, hremove.1, hremove.2, rfl⟩
  unfold conclude
  split
  · next e s hs =>
      rw [show t.finish = _ from hs] at hfinish
      exact hfinish
  · next s hs =>
      rw [show t.finish = _ from hs] at hfinish
      refine ⟨hfinish.board, hfinish.children, hfinish.collections, ?_⟩
      rw [← hfinish.exits]
      exact (Journal.exits_append _ _).trans (List.append_nil _)

/-- The accounts of a run are right however it ends. -/
theorem accounts_execute (c : Config) (limits : Limits) (platform : Platform)
    (rounds : List (List Event)) (handler : Handler) (stream : Bytes) :
    let r₀ := prepare c limits (Host.fresh platform rounds handler) stream
    r₀.execute.final.session.Accounts := by
  intro r₀
  rcases r₀.execute_cases with
    ⟨e, host, hn, heq⟩ | ⟨n, host, -, hend⟩
  · rw [heq]
    obtain ⟨-, rfl⟩ := Notifier.install_error hn
    refine ⟨⟨List.nodup_nil, fun i => ?_⟩, List.prefix_refl _, rfl, rfl⟩
    constructor
    · intro hmem; cases hmem
    · intro hany; cases hany
  · rcases hend with ⟨last, kind, e, final, visits, hr, hs, heq⟩ | ⟨final, visits, hr, -, heq⟩
    · rw [heq]
      obtain ⟨hsteady, -⟩ := steady_of_reached hr
      have hsound := (hsteady.step hs).sound
      exact (hsound.ledger.accounts.givenUp final.session.givenUp_abandon).givenUp
        (givenUp_remove _ n)
    · rw [heq]
      obtain ⟨hsteady, -⟩ := steady_of_reached hr
      exact (hsteady.sound.ledger.accounts.givenUp (givenUp_remove _ n)).givenUp
        (final.onHost n.remove).givenUp_conclude

/-- An ended child that is believed running has left a notice. -/
theorem Steady.notices_pos {r : Run} (h : r.Steady) {pid : Int} {j i : Nat} {child : Child}
    (hmem : (pid, j) ∈ r.session.board.running) (hpid : r.session.host.childOf pid = some i)
    (hc : r.session.host.children[i]? = some child) (hs : child.status ≠ none) :
    0 < r.session.host.notices := by
  obtain ⟨rfl, hj⟩ := h.sound.board.mem_running.1 hmem
  obtain ⟨c', hc', hcoll⟩ := h.sound.child_of_unreaped hj
  have hlt : (j : Int) < r.session.board.next := by
    have := (List.getElem?_eq_some_iff.1 hc').1
    have := h.sound.length_eq
    omega
  rw [h.sound.childOf hlt] at hpid
  cases hpid
  rw [hc] at hc'
  cases hc'
  exact h.announced _ child hc hs hcoll

/-- A run that returns has reached a state in which it is done, and only ended it then. -/
theorem done_of_execute {r₀ : Run} {code : Int} (h : r₀.execute.outcome = .ok code) :
    ∃ final, Reached r₀ final ∧ final.step = none ∧
      Ended final.session r₀.execute.final.session := by
  obtain ⟨n, final, hr, hdone, heq⟩ := returned_of_execute h
  refine ⟨final, hr, hdone, ?_⟩
  rw [← show (final.onHost n.remove).conclude.2 = r₀.execute.final from congrArg Prod.snd heq]
  exact ended_conclude final n

/-- Whenever a run waits, there is a notice if a child that it believes running has ended; a status
is handed out and accounted for at most once; and when a run returns, every child was collected. -/
theorem no_exit_lost (c : Config) (limits : Limits) (platform : Platform)
    (rounds : List (List Event)) (handler : Handler) (stream : Bytes) :
    let r₀ := prepare c limits (Host.fresh platform rounds handler) stream
    let s := r₀.execute.final.session
    (∀ r, Reached r₀ r → r.session.board.phase = .waiting → ∀ pid j i child,
      (pid, j) ∈ r.session.board.running → r.session.host.childOf pid = some i →
        r.session.host.children[i]? = some child → child.status ≠ none →
          0 < r.session.host.notices) ∧
    (s.host.collections.Nodup ∧ (s.journal.exits.map Prod.fst).Nodup ∧
      s.journal.exits.map Prod.fst <+: s.host.collections.map Host.pidOf ∧
      s.board.exitCode = (s.journal.exits.map Prod.snd).foldl WaitStatus.fold 0 ∧
      s.board.finished = s.journal.exits.length) ∧
    ∀ code, r₀.execute.outcome = .ok code →
      s.host.collections.Perm (List.range s.host.children.length) ∧
      (∀ (i : Nat) (child : Child), s.host.children[i]? = some child → child.collected = true) ∧
      s.journal.exits.map (fun e => (e.1, some e.2)) =
        s.host.collections.map (fun i => (Host.pidOf i, (s.host.children[i]?).bind Child.status)) ∧
      s.board.finished = s.board.started ∧ s.board.running = [] := by
  intro r₀ s
  have haccounts : s.Accounts := accounts_execute c limits platform rounds handler stream
  refine ⟨fun r hr _ pid j i child hmem hpid hc hs => ?_, ?_, fun code hok => ?_⟩
  · obtain ⟨hsteady, -⟩ := steady_of_reached hr
    exact hsteady.notices_pos hmem hpid hc hs
  · exact ⟨haccounts.nodup, haccounts.nodup_exits, haccounts.exits, haccounts.exitCode,
      haccounts.finished⟩
  · obtain ⟨final, hr, hdone, hended⟩ := done_of_execute hok
    obtain ⟨hsteady, -⟩ := steady_of_reached hr
    obtain ⟨-, hrun, -⟩ := done_of_step_none hdone
    have hperm := hsteady.sound.all_collected hrun
    have hbalance := hsteady.sound.board.finished
    rw [hrun] at hbalance
    rw [hended.board, hended.collections, hended.children, hended.exits]
    refine ⟨hperm, fun i child hc => ?_, hsteady.sound.ledger.exits, by simpa using hbalance, hrun⟩
    have hmem : i ∈ final.session.host.collections :=
      hperm.mem_iff.2 (List.mem_range.2 (List.getElem?_eq_some_iff.1 hc).1)
    have := (hsteady.sound.ledger.mem i).1 hmem
    rw [hc, Option.any_some] at this
    exact this

/-- A child without a command ends while it is created, before it is registered, and still leaves a
notice. -/
theorem no_exit_lost_at_birth :
    let r₀ := prepare ⟨1, none, true, none, []⟩ ⟨1, 1, by decide, by decide⟩
      (Host.fresh {} [] .default) [0x0a]
    ∃ r, Reached r₀ r ∧ r.session.board.phase = .waiting ∧
      r.session.board.running = [(1000, 0)] ∧
      (r.session.host.children[0]?).bind Child.status = some (.ofExit 1) ∧
      0 < r.session.host.notices := by
  intro r₀
  have hstart : Reached r₀ _ := .start (n := ⟨0, .default, none⟩) rfl
  have hlaunched : Reached r₀ _ := hstart.step (step_of_filling rfl)
  have hnotice := (no_exit_lost ⟨1, none, true, none, []⟩ ⟨1, 1, by decide, by decide⟩
    {} [] .default [0x0a]).1 _ hlaunched rfl 1000 0 0 _ List.mem_cons_self rfl rfl
    (Option.some_ne_none _)
  exact ⟨_, hlaunched, rfl, rfl, rfl, hnotice⟩

end Run

end OrderedJobs
