import OrderedJobs.Proofs.Abandoning
import OrderedJobs.Proofs.WaitRule

/-! # Runs that fail

A step that fails ends the run with its own failure: what is still under way is abandoned, the
notifier is removed, and neither can fail (`Reached.execute_of_failed`).  No signal was sent until
then, because a step leaves alone what only the parent itself changes (`Steady.kills_step`).  So the
signals of a run are those sent when it was abandoned, one to each child that was running
(`Run.abandons_cleanly`). -/

namespace OrderedJobs

/-! ### What a step leaves alone -/

/-- The part of a host that waiting leaves alone. -/
def Host.base (h : Host) : Host :=
  { h.own with descriptors := [], accepted := [], writeCalls := 0, collections := [] }

theorem Host.Later.base {h h' : Host} (hl : h.Later h') : h'.base = h.base :=
  congrArg (fun x : Host =>
    { x with descriptors := [], accepted := [], writeCalls := 0, collections := [] }) hl.own

namespace Session

variable {s s' : Session} {o : Holdings} {j : Nat}

theorem base_present (s : Session) (segments : List Segment) :
    (s.present segments).2.host.base = s.host.base := by
  obtain ⟨accepted, calls, heq⟩ := s.present_frame segments
  rw [heq]
  rfl

theorem Sound.base_reap (h : s.Sound o) : s.reap.2.host.base = s.host.base := by
  obtain ⟨-, hreap, -⟩ := h.reap
  rw [hreap.host, h.takeNotices_eq]
  rfl

theorem Sound.base_handleNotices (h : s.Sound o) : s.handleNotices.2.host.base = s.host.base := by
  rcases h.handleNotices_cases with ⟨pid, j, -, -, heq⟩ | heq | heq
  · rw [heq, h.base_reap]
  · rw [heq, h.base_reap]
  · rw [heq, ← h.base_reap]
    exact base_present _ _

theorem Sound.base_drain (h : s.Sound o) (hj : (j : Int) = s.board.current)
    (hlt : s.board.current < s.board.next) : (s.drain j).2.host.base = s.host.base := by
  obtain ⟨c, hc⟩ := h.child_of_lt (j := j) (by omega)
  rcases h.drain_cases hj hlt hc with ⟨e, heq, -⟩ | ⟨-, heq⟩ | ⟨-, -, heq⟩
  · rw [heq]
    rfl
  · rw [heq]
    exact base_present _ _
  · rw [heq]
    exact base_present _ _

theorem Sound.base_wait (h : s.Sound o) (ha : s.host.Announced)
    (hphase : s.board.phase = .waiting) : s.wait.2.host.base = s.host.base := by
  refine (h.wait_yields (P := fun t => t.host.base = s.host.base)
    (F := fun _ t => t.host.base = s.host.base) ha hphase h.later_polled.base ?_
    (fun _ ht => ht) ?_).snd
  · exact fun hsound => yields_of_snd (hsound.base_handleNotices.trans h.later_polled.base)
  · exact fun t j hsound ht hj hlt _ => yields_of_snd ((hsound.base_drain hj hlt).trans ht)

theorem Sound.uncollected_running (h : s.Sound o) {x : Int × Nat} (hx : x ∈ s.board.running) :
    s.host.childOf x.1 = some x.2 ∧ x.2 ∉ s.host.collections := by
  obtain ⟨pid, j⟩ := x
  obtain ⟨rfl, hj⟩ := h.board.mem_running.1 hx
  obtain ⟨child, hchild, hcoll⟩ := h.child_of_unreaped hj
  refine ⟨h.childOf_of_unreaped hj, fun hmem => ?_⟩
  have := (h.ledger.mem j).1 hmem
  rw [hchild, Option.any_some, hcoll] at this
  cases this

/-- After giving up, every child that can be waited for was collected once. -/
theorem Sound.collected_abandon (h : s.Sound o) {i : Nat} {child : Child}
    (hchild : s.abandon.host.children[i]? = some child) (hlost : i ∉ s.host.platform.faults.lost) :
    child.status ≠ none ∧ child.collected = true ∧ s.abandon.host.collections.count i = 1 := by
  obtain ⟨hstatus, hcoll⟩ := h.abandoned.ended i child hchild hlost
  have honce := s.givenUp_abandon.host.once h.ledger.toHandedOnce
  have hmem : i ∈ s.abandon.host.collections := by
    rw [honce.mem, hchild]
    exact hcoll
  exact ⟨hstatus, hcoll, honce.nodup.count.trans (if_pos hmem)⟩

end Session

namespace Run

variable {r r' r₀ last failed : Run} {o : Holdings} {kind : StepKind} {e : Failure}

theorem Steady.kills_step (h : r.Steady o) {result : Except Failure Unit}
    (hs : r.step = some (kind, result, r')) : r'.session.host.kills = r.session.host.kills := by
  cases h.stepping hs with
  | exhausted | refused | noPipe | noChild => rfl
  | launched => exact Host.grown_keeps (h := r.session.host.opened) Host.kills (fun _ => rfl) rfl
  | waited hphase hwait =>
      have hkills := congrArg Host.kills (h.sound.base_wait h.announced hphase)
      rw [hwait] at hkills
      exact hkills

theorem base_conclude (r : Run) : r.conclude.2.session.host.base = r.session.host.base := by
  obtain ⟨accepted, calls, heq⟩ := r.conclude_frame
  rw [heq]
  rfl

/-! ### How a failure ends a run -/

theorem steps_of_next (h : r.step = some (kind, .ok (), r')) :
    r.steps.outcome = r'.steps.outcome ∧ r.steps.final = r'.steps.final := by
  rw [steps]
  split
  · next hstep => rw [h] at hstep; cases hstep
  · next hstep => rw [h] at hstep; cases hstep
  · next hstep =>
      rw [h] at hstep
      cases hstep
      exact ⟨rfl, rfl⟩

theorem steps_of_failed (h : r.step = some (kind, .error e, r')) :
    r.steps.outcome = .error e ∧ r.steps.final = r' := by
  rw [steps]
  split
  · next hstep => rw [h] at hstep; cases hstep
  · next hstep =>
      rw [h] at hstep
      cases hstep
      exact ⟨rfl, rfl⟩
  · next hstep => rw [h] at hstep; cases hstep

theorem Reached.steps (h : Reached r₀ r) :
    ∃ n host, Notifier.install r₀.session.host = (.ok n, host) ∧
      (r₀.onHost fun _ => host).steps.outcome = r.steps.outcome ∧
      (r₀.onHost fun _ => host).steps.final = r.steps.final := by
  induction h with
  | start hn => exact ⟨_, _, hn, rfl, rfl⟩
  | step _ hs ih =>
      obtain ⟨n, host, hn, houtcome, hfinal⟩ := ih
      obtain ⟨houtcome', hfinal'⟩ := steps_of_next hs
      exact ⟨n, host, hn, houtcome.trans houtcome', hfinal.trans hfinal'⟩

theorem step_of_refused {fault : LineFault} {line : Bytes} {source : Source}
    (hphase : r.session.board.phase = .filling)
    (hpull : r.source.pull r.leading = (.refused fault line, source)) :
    r.step = some (.launch, .error (.badLine fault line), { r with source }) := by
  rw [step_of_filling hphase]
  unfold Run.launch
  rw [hpull]

theorem Reached.execute (h : Reached r₀ r) :
    ∃ n host, Notifier.install r₀.session.host = (.ok n, host) ∧
      ((∃ e, r.steps.outcome = .error e ∧ r₀.execute.outcome = .error e ∧
          r₀.execute.final = (r.steps.final.onSession Session.abandon).onHost n.remove) ∨
        r.steps.outcome = .ok () ∧
          r₀.execute.outcome = (r.steps.final.onHost n.remove).conclude.1 ∧
          r₀.execute.final = (r.steps.final.onHost n.remove).conclude.2) := by
  obtain ⟨n, host, hn, houtcome, hfinal⟩ := h.steps
  refine ⟨n, host, hn, ?_⟩
  have hexec : r₀.execute = (r₀.onHost fun _ => host).underNotifier n := by
    unfold Run.execute
    rw [hn]
  rw [hexec]
  unfold underNotifier
  dsimp only
  rw [houtcome, hfinal]
  cases r.steps.outcome with
  | error e => exact .inl ⟨e, rfl, rfl, rfl⟩
  | ok _ => exact .inr ⟨rfl, rfl, rfl⟩

theorem Reached.execute_of_failed (h : Reached r₀ last)
    (hs : last.step = some (kind, .error e, failed)) :
    ∃ n host, Notifier.install r₀.session.host = (.ok n, host) ∧
      r₀.execute.outcome = .error e ∧
      r₀.execute.final = (failed.onSession Session.abandon).onHost n.remove := by
  obtain ⟨houtcome, hfinal⟩ := steps_of_failed hs
  obtain ⟨n, host, hn, hend⟩ := h.execute
  rw [houtcome, hfinal] at hend
  rcases hend with ⟨e', he, houtcome, hfinal⟩ | ⟨hok, -⟩
  · cases he
    exact ⟨n, host, hn, houtcome, hfinal⟩
  · cases hok

/-- Removing the notifier first closes the end that is read. -/
theorem close_restored {n : Notifier} {h : Host} (hpipe : n.pipe = o.pipes)
    (hd : h.descriptors = o.withNotifier) : (n.restored h).close (.readEnd n.pipe) =
      { n.restored h with descriptors := o.ends ++ [.writeEnd o.pipes] } := by
  have hread : .readEnd o.pipes ∉ o.ends := o.not_mem (Nat.le_refl o.pipes)
  have hd' : (n.restored h).descriptors = o.withNotifier := hd
  rw [hpipe, Host.close_eq (by simp [hd', Holdings.withNotifier]), hd', Holdings.withNotifier,
    List.erase_append_right _ hread, List.erase_cons_head]

/-- Removing the notifier closes its two descriptors, the last that the run holds. -/
theorem remove_eq {n : Notifier} {h : Host} (hpipe : n.pipe = o.pipes)
    (hd : h.descriptors = o.withNotifier) : n.remove h = { h with
      wakeup := n.previousWakeup
      handler := n.handlerAfter
      signalCalls := h.signalCalls ++ n.removeCalls
      descriptors := o.ends } := by
  have hwrite : .writeEnd o.pipes ∉ o.ends := o.not_mem (Nat.le_refl o.pipes)
  show ((n.restored h).close (.readEnd n.pipe)).close (.writeEnd n.pipe) = _
  rw [close_restored hpipe hd, hpipe, Host.close_eq (by simp)]
  dsimp only
  rw [List.erase_append_right _ hwrite, List.erase_cons_head, List.append_nil]
  rfl

section fresh

variable {c : Config} {limits : Limits} {platform : Platform} {rounds : List (List Event)}
  {handler : Handler} {stream : Bytes}

theorem kills_of_reached
    (h : Reached (prepare c limits (Host.fresh platform rounds handler) stream) r) :
    r.session.host.kills = [] := by
  induction h with
  | start hn =>
      obtain ⟨-, rfl⟩ := Notifier.install_ok hn
      rfl
  | step hr hs ih =>
      obtain ⟨hsteady, -⟩ := steady_of_reached hr
      rw [hsteady.kills_step hs, ih]

theorem pairwise_running {b : Board} (h : b.Counts) :
    (b.running.map Prod.snd).Pairwise (· < ·) := by
  rw [h.running, List.map_map]
  refine List.Pairwise.map _ (fun i k hlt => hlt) ?_
  exact List.pairwise_lt_range.filter _

theorem kills_of_returned {code : Int}
    (hok : (prepare c limits (Host.fresh platform rounds handler) stream).execute.outcome =
      .ok code) :
    let final := (prepare c limits (Host.fresh platform rounds handler) stream).execute.final
    final.session.host.kills = [] := by
  intro final
  obtain ⟨n, done, hr, -, heq⟩ := returned_of_execute hok
  have hremove : (n.remove done.session.host).kills = done.session.host.kills := by
    obtain ⟨descriptors, misused, hframe⟩ := n.remove_frame done.session.host
    rw [hframe]
  have hbase := congrArg Host.kills (base_conclude (done.onHost n.remove))
  rw [heq] at hbase
  exact hbase.trans (hremove.trans (kills_of_reached hr))

/-- After a step that fails, the run has given up and removed its notifier. -/
theorem final_of_failed
    (hr : Reached (prepare c limits (Host.fresh platform rounds handler) stream) last)
    (hs : last.step = some (kind, .error e, failed)) :
    let result := (prepare c limits (Host.fresh platform rounds handler) stream).execute
    result.outcome = .error e ∧ ∃ wakeup handler calls,
      result.final.session = { failed.session.abandon with
        host := { failed.session.abandon.host with
          wakeup := wakeup
          handler := handler
          signalCalls := calls
          descriptors := [] } } := by
  intro result
  obtain ⟨hsteady, -⟩ := steady_of_reached hr
  have hdescriptors := (hsteady.step hs).sound.abandoned.descriptors
  obtain ⟨n, host, hn, houtcome, heq⟩ := hr.execute_of_failed hs
  have hpipe : n.pipe = ({} : Holdings).pipes := by
    obtain ⟨heq, -⟩ := Notifier.install_ok hn
    rw [heq]
    rfl
  have hfinal : result.final.session =
      { failed.session.abandon with host := n.remove failed.session.abandon.host } :=
    congrArg Run.session heq
  rw [remove_eq hpipe hdescriptors] at hfinal
  exact ⟨houtcome, _, _, _, hfinal⟩

/-- Giving up after a step that fails: exactly the running children are sent a signal, one each and
in the order of their launch; nothing is left running, held or uncollected; the counters keep their
values; and the run ends with the failure of the step.  A run that returns sends no signal. -/
theorem abandons_cleanly (c : Config) (limits : Limits) (platform : Platform)
    (rounds : List (List Event)) (handler : Handler) (stream : Bytes) :
    let r₀ := prepare c limits (Host.fresh platform rounds handler) stream
    let final := r₀.execute.final.session
    (∀ last kind e failed, Reached r₀ last → last.step = some (kind, .error e, failed) →
      let s := failed.session
      r₀.execute.outcome = .error e ∧
      (final.host.kills =
          s.board.running.map (fun x => (s.host.childOf x.1, Signal.terminate)) ∧
        (∀ x ∈ s.board.running, s.host.childOf x.1 = some x.2 ∧ x.2 ∉ s.host.collections) ∧
        (s.board.running.map Prod.snd).Pairwise (· < ·)) ∧
      (final.board.running = [] ∧ final.board.ring = List.replicate limits.capacity none ∧
        ∀ (j : Nat) (job : Job), final.board.jobs[j]? = some job → job.output = none) ∧
      (∀ (i : Nat) (child : Child), final.host.children[i]? = some child →
        i ∉ platform.faults.lost → child.status ≠ none ∧ child.collected = true ∧
          final.host.collections.count i = 1) ∧
      (final.board.finished = s.board.finished ∧ final.board.exitCode = s.board.exitCode) ∧
      final.host.descriptors = [] ∧ final.host.misused = 0) ∧
    ∀ code, r₀.execute.outcome = .ok code → final.host.kills = [] := by
  intro r₀ final
  refine ⟨fun last kind e failed hr hs => ?_, fun code hok => kills_of_returned hok⟩
  intro s
  obtain ⟨hsteady, hfixed⟩ := steady_of_reached hr
  have hstep := hsteady.step hs
  have hsound : s.Sound := hstep.sound
  have hplatform : s.host.platform = platform := (hfixed.trans hstep.fixed).platform
  have hlimits : s.board.limits = limits := (hfixed.trans hstep.fixed).limits
  have habandoned := hsound.abandoned
  have hgiven := s.givenUp_abandon
  obtain ⟨houtcome, wakeup, handler', calls, hfinal⟩ := final_of_failed hr hs
  rw [show final = _ from hfinal]
  refine ⟨houtcome, ⟨?_, fun x hx => hsound.uncollected_running hx,
    pairwise_running hsound.board.toCounts⟩, ⟨?_, ?_, ?_⟩, ?_,
    ⟨hgiven.finished, hgiven.exitCode⟩, rfl, habandoned.misused⟩
  · show s.abandon.host.kills = _
    have hnone : s.host.kills = [] := (hsteady.kills_step hs).trans (kills_of_reached hr)
    rw [habandoned.kills, hnone, List.nil_append]
    exact List.map_congr_left fun x hx => by rw [(hsound.uncollected_running hx).1]
  · show s.abandon.board.running = []
    rw [habandoned.board]
  · show s.abandon.board.ring = _
    rw [habandoned.board, ← hlimits]
    exact hsound.board.clearRing_ring
  · show ∀ (j : Nat) (job : Job), s.abandon.board.jobs[j]? = some job → job.output = none
    rw [habandoned.board]
    exact fun j job hjob => hsound.board.output_clearRing hjob
  · rw [← hplatform]
    exact fun i child hchild hlost => hsound.collected_abandon hchild hlost

/-- The second line lacks its terminator while the first job runs. -/
theorem abandons_cleanly_one_running :
    let r₀ := prepare ⟨2, none, true, none, []⟩ ⟨2, 2, by decide, by decide⟩
      (Host.fresh {} [] .default) [0x61, 0x0a, 0x62]
    r₀.execute.outcome = .error (.badLine .missingNewline [0x62]) ∧
      r₀.execute.final.session.host.kills = [(some 0, Signal.terminate)] ∧
      r₀.execute.final.session.board.running = [] := by
  intro r₀
  have hstart : Reached r₀ _ := .start (n := ⟨0, .default, none⟩) rfl
  have hlaunched : Reached r₀ _ := hstart.step (step_of_filling rfl)
  obtain ⟨houtcome, ⟨hkills, hchildren, -⟩, ⟨hrunning, -⟩, -⟩ :=
    (abandons_cleanly ⟨2, none, true, none, []⟩ ⟨2, 2, by decide, by decide⟩ {} [] .default
      [0x61, 0x0a, 0x62]).1 _ _ _ _ hlaunched (step_of_refused rfl rfl)
  have hfirst := (hchildren (Host.pidOf 0, 0) List.mem_cons_self).1
  refine ⟨houtcome, hkills.trans ?_, hrunning⟩
  exact congrArg (fun child => [(child, Signal.terminate)]) hfirst

end fresh

end Run

end OrderedJobs
