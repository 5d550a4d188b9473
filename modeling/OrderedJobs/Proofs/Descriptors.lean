import OrderedJobs.Proofs.Accounting
import OrderedJobs.Proofs.Instants

/-! # Descriptors and handlers

Whenever the loop of a run goes round, the descriptors open are those from before it, the two of its
notifier, and one for each job that is not drained (`Sound.map_descriptors`).  At every call all
that was open before is open still, and the wakeup descriptor that is installed is open
(`Host.Holds`).  On every outcome the run leaves the descriptors, the wakeup descriptor and the
handler that it found, and it never misused a descriptor (`Run.restored_final`).  So its accounts
balance: each end of a pipe that it made was closed once, no other was closed, and none was used
afterwards (`Run.descriptors_accounted`). -/

namespace OrderedJobs

variable {o : Holdings} {e : Entry} {limits : Limits} {previous : Option Descriptor}

/-! ### One descriptor for each job that is not drained -/

/-- The jobs whose output was not copied to the end. -/
def Board.undrained (b : Board) : List Job := b.jobs.filter (!·.drained)

/-- The end from which the output of a job is read, if it is held. -/
def Session.jobEnd (s : Session) (job : Job) : Option Descriptor :=
  job.output.bind fun child => (s.host.children[child]?).map fun c => .readEnd c.pipe

theorem Board.Sound.undrained_eq {b : Board} (h : b.Sound) :
    b.undrained = b.jobs.drop b.current.toNat := by
  have hnn := h.current_nonneg
  have hbefore : (b.jobs.take b.current.toNat).filter (!·.drained) = [] := by
    rw [List.filter_eq_nil_iff]
    intro job hjob
    obtain ⟨j, hj⟩ := List.mem_iff_getElem?.1 hjob
    rw [List.getElem?_take] at hj
    split at hj
    · next hlt => simp [(h.kept j job hj).drained.2 (by omega)]
    · cases hj
  have hafter : (b.jobs.drop b.current.toNat).filter (!·.drained) =
      b.jobs.drop b.current.toNat := by
    rw [List.filter_eq_self]
    intro job hjob
    obtain ⟨j, hj⟩ := List.mem_iff_getElem?.1 hjob
    rw [List.getElem?_drop] at hj
    have hnot : ¬ job.drained = true := fun htrue => by
      have := (h.kept _ job hj).drained.1 htrue
      omega
    simp [hnot]
  unfold undrained
  rw [← List.take_append_drop b.current.toNat b.jobs, List.filter_append, hbefore, hafter,
    List.nil_append, List.take_append_drop]

namespace Session

variable {s : Session}

theorem Sound.length_undrained (h : s.Sound o) :
    (s.board.undrained.length : Int) = s.board.next - s.board.current := by
  have hnext := h.board.next
  have hle := h.board.current_le
  have hnn := h.board.current_nonneg
  rw [h.board.undrained_eq, List.length_drop]
  omega

theorem Sound.map_descriptors (h : s.Sound o) : s.host.descriptors.map some =
    o.withNotifier.map some ++ s.board.undrained.map s.jobEnd := by
  have hnext := h.board.next
  have hle := h.board.current_le
  have hnn := h.board.current_nonneg
  have hjobs : ((List.range' (s.board.current.toNat + 1 + o.pipes)
      (s.board.next - s.board.current).toNat).map Descriptor.readEnd).map some =
        s.board.undrained.map s.jobEnd := by
    refine List.ext_getElem? fun k => ?_
    rw [h.board.undrained_eq, List.map_map, List.getElem?_map, List.getElem?_map,
      List.getElem?_drop]
    by_cases hk : k < (s.board.next - s.board.current).toNat
    · have hlt : s.board.current.toNat + k < s.board.jobs.length := by omega
      obtain ⟨c, hc⟩ := h.child_of_lt (j := s.board.current.toNat + k) (by omega)
      have hjob := List.getElem?_eq_getElem hlt
      have hout := (h.board.kept _ _ hjob).output
      rw [if_neg (by omega)] at hout
      rw [List.getElem?_range' hk, hjob, Option.map_some, Option.map_some, jobEnd, hout,
        Option.bind_some, hc, Option.map_some, (h.fits _ c hc).pipe]
      simp only [Function.comp_apply, Option.some.injEq, Descriptor.readEnd.injEq]
      omega
    · rw [List.getElem?_eq_none (by simp; omega), List.getElem?_eq_none (by omega)]
      rfl
  rw [h.descriptors, Board.openEnds, ← hjobs]
  simp [Holdings.withNotifier]

theorem Sound.length_descriptors (h : s.Sound o) :
    (s.host.descriptors.length : Int) =
      o.ends.length + 2 + (s.board.next - s.board.current) := by
  have hlength := congrArg List.length h.map_descriptors
  have hundrained := h.length_undrained
  simp only [List.length_map, List.length_append, Holdings.withNotifier, List.length_cons,
    List.length_nil] at hlength
  omega

theorem Sound.withNotifier_subset (h : s.Sound o) : o.withNotifier ⊆ s.host.descriptors := by
  have heq : s.host.descriptors = o.withNotifier ++ (List.range' (s.board.current.toNat + 1 +
      o.pipes) (s.board.next - s.board.current).toNat).map .readEnd := by
    rw [h.descriptors]
    simp [Board.openEnds, Holdings.withNotifier]
  rw [heq]
  exact List.subset_append_left _ _

/-- When everything is drained, only the notifier's descriptors are left of those of the run. -/
theorem Sound.descriptors_drained (h : s.Sound o) (heq : s.board.current = s.board.next) :
    s.host.descriptors = o.withNotifier := by
  rw [h.descriptors]
  simp [Board.openEnds, Holdings.withNotifier, heq]

end Session

/-! ### What is open at a call -/

/-- What was open before a run is open, and the wakeup descriptor is as it was, or else the run's
own and open. -/
structure Host.Holds (h : Host) (previous : Option Descriptor) (o : Holdings) : Prop where
  ends : o.ends ⊆ h.descriptors
  wakeup : h.wakeup = previous ∨
    h.wakeup = some (.writeEnd o.pipes) ∧ .writeEnd o.pipes ∈ h.descriptors

theorem Host.holds_of_notifier {h : Host} (hw : h.wakeup = some (.writeEnd o.pipes))
    (hd : o.withNotifier ⊆ h.descriptors) : h.Holds previous o where
  ends := fun _ hmem => hd (List.mem_append_left _ hmem)
  wakeup := .inr ⟨hw, hd (by simp [Holdings.withNotifier])⟩

/-- There are at most the descriptors from before, two, one for each job that may await its turn,
and one more within a launch. -/
def Entry.Spare (e : Entry) (limits : Limits) (o : Holdings) : Prop :=
  e.host.descriptors.length ≤
    o.ends.length + 2 + limits.capacity + if e.place = .launch then 1 else 0

theorem Entry.spare_of_le
    (hle : e.host.descriptors.length ≤ o.ends.length + 2 + limits.capacity) : e.Spare limits o :=
  Nat.le_trans hle (Nat.le_add_right _ _)

theorem Session.Sound.length_le {s : Session} (h : s.Sound o) :
    s.host.descriptors.length ≤ o.ends.length + 2 + s.board.limits.capacity := by
  have hlength := h.length_descriptors
  have hle := h.board.next_le
  omega

theorem Notifier.holds_tearDown {n : Notifier} {p : Place} {s : Session}
    (hpipe : n.pipe = o.pipes) (hd : s.host.descriptors = o.withNotifier)
    (hw : s.host.wakeup = some (.writeEnd o.pipes)) (he : e ∈ n.tearDownCalls p s) :
    e.host.Holds n.previousWakeup o := by
  unfold tearDownCalls at he
  simp only [List.mem_cons, List.not_mem_nil, or_false] at he
  rcases he with rfl | rfl | rfl
  · exact Host.holds_of_notifier hw (hd ▸ List.Subset.refl _)
  · refine ⟨fun d hmem => ?_, .inl rfl⟩
    show d ∈ s.host.descriptors
    rw [hd]
    exact List.mem_append_left _ hmem
  · have hclose := Run.close_restored hpipe hd
    rw [Entry.host, hclose]
    exact ⟨List.subset_append_left _ _, .inl rfl⟩

namespace Run

variable {r r₀ : Run}

theorem Steady.holds_step (h : r.Steady o) (he : e ∈ r.stepCalls) :
    e.host.Holds previous o ∧ e.Spare r.session.board.limits o := by
  unfold stepCalls at he
  split at he
  · next hphase =>
      split at he
      · obtain ⟨hplace, hlaunching⟩ := h.sound.launching h.pipes he
        obtain ⟨more, hmore, heq⟩ := hlaunching.descriptors
        have hroom := (Board.canLaunch_iff.1 (phase_filling_launch hphase)).2.1
        have hlength := h.sound.length_descriptors
        have htwo := hmore.length_le
        constructor
        · apply Host.holds_of_notifier (hlaunching.wakeup.trans h.sound.wakeup)
          rw [heq]
          exact List.subset_append_of_subset_left _ h.sound.withNotifier_subset
        · unfold Entry.Spare
          rw [heq, if_pos hplace, List.length_append]
          simp only [List.length_cons, List.length_nil] at htwo
          omega
      · cases he
  · have hsound := (h.sound.waits he).sound
    have hplain : Plain .wait r.session.waitCalls := fun e he => (h.sound.waits he).plain
    have hshrinks := ((r.session.calls_wait.shrinks hplain).2 e he).1
    constructor
    · exact Host.holds_of_notifier hsound.wakeup hsound.withNotifier_subset
    · exact Entry.spare_of_le (Nat.le_trans hshrinks.descriptors.length_le h.sound.length_le)
  · cases he

section found

variable {c : Config} {platform : Platform} {rounds : List (List Event)} {handler : Handler}
  {wakeup : Option Descriptor} {stream : Bytes}

theorem notifier_found {n : Notifier} {host : Host}
    (hn : Notifier.install (Host.found platform rounds handler wakeup o) = (.ok n, host)) :
    n.pipe = o.pipes ∧ n.previousWakeup = wakeup ∧ n.previousHandler = handler := by
  obtain ⟨rfl, -⟩ := Notifier.install_ok hn
  exact ⟨rfl, rfl, rfl⟩

theorem holds_call
    (he : e ∈ (prepare c limits (Host.found platform rounds handler wakeup o) stream).calls) :
    e.host.Holds wakeup o ∧ e.Spare limits o := by
  cases occurs_of_mem he with
  | setUp he =>
      obtain ⟨-, -, heq | heq⟩ := Notifier.mem_setUpCalls he
      · refine ⟨⟨?_, .inl (heq ▸ rfl)⟩, Entry.spare_of_le ?_⟩
        · rw [heq]
          exact List.Subset.refl _
        · rw [heq]
          exact Nat.le_trans (Nat.le_add_right _ _) (Nat.le_add_right _ _)
      · refine ⟨⟨?_, .inl (heq ▸ rfl)⟩, Entry.spare_of_le ?_⟩
        · rw [heq]
          exact List.subset_append_left _ _
        · rw [heq]
          show (o.ends ++ [Descriptor.readEnd o.pipes, .writeEnd o.pipes]).length ≤ _
          rw [List.length_append]
          exact Nat.le_add_right _ _
  | step hr he =>
      obtain ⟨hsteady, hfixed⟩ := steady_of_found hr
      obtain ⟨hholds, hspare⟩ := hsteady.holds_step he
      rw [hfixed.limits] at hspare
      exact ⟨hholds, hspare⟩
  | @cleanUp r failed kind error n host hn hr hs he =>
      obtain ⟨hsound, hlimits⟩ := sound_of_step hr hs
      obtain ⟨hpipe, hwakeup, -⟩ := notifier_found hn
      have hdropped := hsound.abandoned.descriptors
      have hle := hlimits ▸ hsound.length_le
      obtain ⟨hall, hentries⟩ :=
        failed.session.calls_abandon.shrinks failed.session.plain_abandonCalls
      rcases List.mem_append.1 he with he | he
      · obtain ⟨hbefore, hafter⟩ := hentries e he
        constructor
        · apply Host.holds_of_notifier (hbefore.wakeup.trans hsound.wakeup)
          exact hdropped ▸ hafter.descriptors.subset
        · exact Entry.spare_of_le (Nat.le_trans hbefore.descriptors.length_le hle)
      · obtain ⟨-, hclosing⟩ := Notifier.closing_tearDown he
        constructor
        · rw [← hwakeup]
          exact Notifier.holds_tearDown hpipe hdropped
            (hall.wakeup.trans hsound.wakeup) he
        · exact Entry.spare_of_le (Nat.le_trans
            (hclosing.descriptors.trans hall.descriptors).length_le hle)
  | @windUp r n host hn hr hdone he =>
      obtain ⟨hsound, hlimits⟩ := sound_of_found hr
      obtain ⟨hpipe, hwakeup, -⟩ := notifier_found hn
      have hdrained := hsound.descriptors_drained (done_of_step_none hdone).2.2
      have hle := hlimits ▸ hsound.length_le
      rcases List.mem_append.1 he with he | he
      · obtain ⟨-, hclosing⟩ := Notifier.closing_tearDown he
        constructor
        · rw [← hwakeup]
          exact Notifier.holds_tearDown hpipe hdrained hsound.wakeup he
        · exact Entry.spare_of_le (Nat.le_trans hclosing.descriptors.length_le hle)
      · obtain ⟨-, hclosing⟩ := closing_conclude he
        obtain ⟨-, -, accepted, calls, hsession⟩ := Session.mem_writeCalls he
        have hremoved : (r.onHost n.remove).session.host = _ := remove_eq hpipe hdrained
        refine ⟨⟨?_, .inl ?_⟩,
          Entry.spare_of_le (Nat.le_trans hclosing.descriptors.length_le hle)⟩
        · rw [Entry.host, hsession, hremoved]
          exact List.Subset.refl _
        · rw [Entry.host, hsession, hremoved]
          exact hwakeup

/-! ### What is left -/

theorem leaves_remove {n : Notifier} {h : Host} (hpipe : n.pipe = o.pipes)
    (hd : h.descriptors = o.withNotifier) (hm : h.misused = 0) :
    (n.remove h).descriptors = o.ends ∧ (n.remove h).misused = 0 ∧
      (n.remove h).wakeup = n.previousWakeup ∧ (n.remove h).handler = n.handlerAfter := by
  rw [remove_eq hpipe hd]
  exact ⟨rfl, hm, rfl, rfl⟩

/-- On every outcome a run leaves the descriptors, the wakeup descriptor and the handler that it
found.  A handler that was set out of sight is replaced by the default once the notifier was
installed. -/
theorem restored_final :
    let final := (prepare c limits (Host.found platform rounds handler wakeup o)
      stream).execute.final.session.host
    final.descriptors = o.ends ∧ final.misused = 0 ∧ final.wakeup = wakeup ∧
      final.handler = if platform.faults.pipe.error? 0 = none ∧ handler = .foreign then .default
        else handler := by
  intro final
  rcases (prepare c limits (Host.found platform rounds handler wakeup o) stream).execute_cases with
    ⟨error, host, hn, heq⟩ | ⟨n, host, hn, hend⟩
  · obtain ⟨hfault, rfl⟩ := Notifier.install_error hn
    have hfault : platform.faults.pipe.error? 0 = some error := hfault
    rw [show final = _ from congrArg (fun x : Result => x.final.session.host) heq,
      if_neg (fun hboth => by rw [hfault] at hboth; cases hboth.1)]
    exact ⟨rfl, rfl, rfl, rfl⟩
  obtain ⟨hpipe, hwakeup, hhandler⟩ := notifier_found hn
  have hfault : platform.faults.pipe.error? 0 = none := Notifier.pipe_of_install hn
  have hafter : n.handlerAfter =
      if platform.faults.pipe.error? 0 = none ∧ handler = .foreign then .default else handler := by
    unfold Notifier.handlerAfter
    rw [hhandler]
    simp [hfault]
  rcases hend with ⟨last, kind, error, failed, visits, hr, hs, heq⟩ | ⟨done, visits, hr, hdone, heq⟩
  · obtain ⟨hsound, -⟩ := sound_of_step hr hs
    have habandoned := hsound.abandoned
    rw [show final = _ from congrArg (fun x : Result => x.final.session.host) heq, ← hwakeup,
      ← hafter]
    exact leaves_remove hpipe habandoned.descriptors habandoned.misused
  · obtain ⟨hsound, -⟩ := sound_of_found hr
    have hdrained := hsound.descriptors_drained (done_of_step_none hdone).2.2
    obtain ⟨accepted, calls, hframe⟩ := (done.onHost n.remove).conclude_frame
    rw [show final = _ from congrArg (fun x : Result => x.final.session.host) heq, ← hwakeup,
      ← hafter]
    dsimp only
    rw [hframe]
    exact leaves_remove hpipe hdrained hsound.misused

/-- Whenever the loop goes round, the open descriptors are those from before the run, the two of
the notifier, and one for each job that is not drained, in this order, and these jobs are at most as
many as may await their turn; within a launch there may be one descriptor more.  Each end of a pipe
that the run made is closed once, no other is closed, and none is closed, polled or read from after
that.  On every outcome the descriptors, the wakeup descriptor and the handler are those from
before, unless the handler had been set out of sight.  If the wakeup descriptor was open before the
run, the one that is installed is open at every call. -/
theorem descriptors_accounted (c : Config) (limits : Limits) (platform : Platform)
    (rounds : List (List Event)) (handler : Handler) (wakeup : Option Descriptor) (o : Holdings)
    (stream : Bytes) :
    let r₀ := prepare c limits (Host.found platform rounds handler wakeup o) stream
    let final := r₀.execute.final.session.host
    Calls r₀.session.host r₀.calls final ∧
    (∀ r, Reached r₀ r →
      r.session.host.descriptors.map some =
        o.withNotifier.map some ++ r.session.board.undrained.map r.session.jobEnd ∧
      r.session.board.undrained.length ≤ limits.capacity) ∧
    (∀ e ∈ r₀.calls, e.host.descriptors.length ≤
      o.ends.length + 2 + limits.capacity + if e.place = .launch then 1 else 0) ∧
    (∀ d, r₀.calls.countP (·.call.closes d) =
      if o.pipes ≤ d.pipe ∧ d.pipe < final.pipes then 1 else 0) ∧
    (∀ es e fs, r₀.calls = es ++ e :: fs → ∀ d ∈ e.call.uses e.host,
      d ∈ e.host.descriptors ∧ es.countP (·.call.closes d) = 0) ∧
    (final.descriptors = o.ends ∧ final.wakeup = wakeup ∧
      final.handler = if platform.faults.pipe.error? 0 = none ∧ handler = .foreign then .default
        else handler) ∧
    ((∀ d, wakeup = some d → d ∈ o.ends) →
      ∀ e ∈ r₀.calls, ∀ d, e.host.wakeup = some d → d ∈ e.host.descriptors) := by
  intro r₀ final
  have hcalls : Calls r₀.session.host r₀.calls final := r₀.calls_execute
  obtain ⟨hends, hmisused, hwakeup, hhandler⟩ :
      final.descriptors = o.ends ∧ final.misused = 0 ∧ _ := restored_final (c := c) (o := o)
  have htidy : r₀.session.host.Tidy := ⟨o.distinct, o.made⟩
  refine ⟨hcalls, fun r hr => ?_, fun e he => (holds_call he).2, fun d => ?_,
    fun es e fs heq d hd => ?_, ⟨hends, hwakeup, hhandler⟩, fun hopen e he d hd => ?_⟩
  · obtain ⟨hsound, hlimits⟩ := sound_of_found hr
    have hlength := hsound.length_undrained
    have hle := hsound.board.next_le
    refine ⟨hsound.map_descriptors, ?_⟩
    rw [← hlimits]
    omega
  · have hbalance := (hcalls.accounts (Nat.le_of_eq hmisused)).balance d
    rw [hends, Nat.add_comm] at hbalance
    exact Nat.add_left_cancel hbalance
  · rw [heq] at hcalls
    exact hcalls.unclosed htidy (Nat.le_of_eq hmisused) hd
  · obtain ⟨hsubset, hor⟩ := (holds_call he).1
    rcases hor with hprevious | ⟨hmine, hmem⟩
    · exact hsubset (hopen d (hprevious ▸ hd))
    · rw [hmine] at hd
      cases hd
      exact hmem

/-- In a process that takes exit notices itself, while a job runs, the descriptors of both notifiers
and the job's are open; the run polls its own notifier, which is installed. -/
theorem descriptors_accounted_one_running :
    let o : Holdings := { pipes := 1, ends := [.writeEnd 0], made := by decide }
    let r₀ := prepare ⟨1, none, true, none, []⟩ ⟨1, 1, by decide, by decide⟩
      (Host.found {} [] .foreign (some (.writeEnd 0)) o) [0x61, 0x0a]
    (∀ d, some (Descriptor.writeEnd 0) = some d → d ∈ o.ends) ∧
    ∃ r, Reached r₀ r ∧
      r.session.host.descriptors = [.writeEnd 0, .readEnd 1, .writeEnd 1, .readEnd 2] ∧
      r.session.board.undrained.length = 1 ∧
      ∃ e es fs, r₀.calls = es ++ e :: fs ∧ .readEnd 1 ∈ e.call.uses e.host ∧
        .readEnd 1 ∈ e.host.descriptors ∧ es.countP (·.call.closes (.readEnd 1)) = 0 ∧
        e.host.wakeup = some (.writeEnd 1) ∧ .writeEnd 1 ∈ e.host.descriptors := by
  intro o r₀
  have hopen : ∀ d, some (Descriptor.writeEnd 0) = some d → d ∈ o.ends := by
    intro d hd
    cases hd
    exact List.mem_cons_self
  have hstart : Reached r₀ _ := .start (n := ⟨1, .foreign, some (.writeEnd 0)⟩) rfl
  have hlaunched : Reached r₀ _ := hstart.step (step_of_filling rfl)
  obtain ⟨-, hheads, -, -, huses, -, hwakeups⟩ := descriptors_accounted ⟨1, none, true, none, []⟩
    ⟨1, 1, by decide, by decide⟩ {} [] .foreign (some (.writeEnd 0)) o [0x61, 0x0a]
  have hmem := hlaunched.mem_calls (e := ⟨.wait, _, .poll (some 0)⟩) List.mem_cons_self
  obtain ⟨es, fs, heq⟩ := List.append_of_mem hmem
  obtain ⟨hheld, hunclosed⟩ := huses es _ fs heq (.readEnd 1) List.mem_cons_self
  have hinstalled := hwakeups hopen _ hmem (.writeEnd 1) rfl
  have hdescriptors := (hheads _ hlaunched).1
  exact ⟨hopen, _, hlaunched, (List.map_inj_right fun _ _ => Option.some.inj).1 hdescriptors, rfl,
    _, es, fs, heq, List.mem_cons_self, hheld, hunclosed, rfl, hinstalled⟩

end found

end Run

end OrderedJobs
