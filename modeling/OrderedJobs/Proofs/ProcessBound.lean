import OrderedJobs.Proofs.Instants

/-! # The bound on processes

The limits of a board bound what the operating system has to hold, at every moment of a run
(`Run.processes_bounded`): the children that were forked and not collected are never more than may
run at once, and the pipes of jobs whose read end is open never more than may await their turn.  For
the children that the board believes running are those that were not collected
(`Sound.running_eq`); a launch, which adds one of each, was admitted before; and all other calls
take away only. -/

namespace OrderedJobs

variable {o : Holdings} {e : Entry} {limits : Limits}

/-- The descriptor is the read end of a job's pipe: these are made after the notifier's. -/
def Holdings.isJobEnd (o : Holdings) : Descriptor → Bool
  | .readEnd p => decide (o.pipes < p)
  | .writeEnd _ => false

/-- The read ends of jobs' pipes that are open. -/
def Host.jobEnds (o : Holdings) (h : Host) : List Descriptor := h.descriptors.filter o.isJobEnd

/-- There are not more children and pipes of jobs than the limits allow. -/
structure Host.Bounded (h : Host) (limits : Limits) (o : Holdings) : Prop where
  processes : h.uncollected.length ≤ limits.concurrency
  pipes : (h.jobEnds o).length ≤ limits.capacity

namespace Host

variable {h h' : Host}

theorem uncollected_congr (hchildren : h'.children = h.children) :
    h'.uncollected = h.uncollected := by
  unfold uncollected
  rw [hchildren]

theorem Bounded.shrinks (hb : h.Bounded limits o) (hs : h.Shrinks h') : h'.Bounded limits o where
  processes := Nat.le_trans hs.uncollected_sublist.length_le hb.processes
  pipes := Nat.le_trans (hs.descriptors.filter _).length_le hb.pipes

theorem Bounded.closing (hb : h.Bounded limits o) (hchildren : h'.children = h.children)
    (hdescriptors : h'.descriptors.Sublist h.descriptors) : h'.Bounded limits o where
  processes := uncollected_congr hchildren ▸ hb.processes
  pipes := Nat.le_trans (hdescriptors.filter _).length_le hb.pipes

theorem jobEnds_ends (o : Holdings) : o.ends.filter o.isJobEnd = [] := by
  rw [List.filter_eq_nil_iff]
  intro d hd
  have hlt := o.made d hd
  cases d with
  | readEnd p => exact fun htrue => Nat.lt_asymm hlt (of_decide_eq_true htrue)
  | writeEnd p => exact Bool.false_ne_true

end Host

namespace Session

variable {s : Session}

/-- The children that were not collected are those of the jobs that were not reaped. -/
theorem Sound.uncollected_eq (h : s.Sound o) : s.host.uncollected = s.board.unreaped := by
  unfold Host.uncollected Board.unreaped
  rw [h.children]
  refine List.filter_congr fun i hi => ?_
  have hlt : i < s.host.children.length := h.children ▸ List.mem_range.1 hi
  have hget := List.getElem?_eq_getElem hlt
  have hreaped := (h.fits i _ hget).reaped
  obtain ⟨job, hjob, hr⟩ := Option.map_eq_some_iff.1 hreaped
  rw [hget, hjob, Option.any_some, Option.any_some, hr]

theorem Sound.running_eq (h : s.Sound o) :
    s.board.running = s.host.uncollected.map fun i => (Host.pidOf i, i) := by
  rw [h.uncollected_eq, h.board.running]

theorem Sound.length_jobEnds (h : s.Sound o) :
    (s.host.jobEnds o).length = (s.board.next - s.board.current).toNat := by
  have hall : ((List.range' (s.board.current.toNat + 1 + o.pipes)
      (s.board.next - s.board.current).toNat).map Descriptor.readEnd).filter o.isJobEnd = _ :=
    List.filter_eq_self.2 fun d hd => by
      obtain ⟨p, hp, rfl⟩ := List.mem_map.1 hd
      rw [List.mem_range'_1] at hp
      exact decide_eq_true (show o.pipes < p by omega)
  unfold Host.jobEnds
  rw [h.descriptors, Board.openEnds, List.filter_append, Host.jobEnds_ends, List.nil_append,
    List.filter_cons_of_neg (by simp [Holdings.isJobEnd]),
    List.filter_cons_of_neg (by simp [Holdings.isJobEnd]), hall, List.length_map,
    List.length_range']

theorem Sound.bounded (h : s.Sound o) : s.host.Bounded s.board.limits o where
  processes := by
    have hle := h.board.running_le
    rwa [h.running_eq, List.length_map] at hle
  pipes := by
    have hle := h.board.next_le
    rw [h.length_jobEnds]
    omega

/-- Within a launch that was admitted there is room for one more child and its pipe. -/
theorem Sound.bounded_launching {h' : Host} (h : s.Sound o) (hc : s.board.canLaunch = true)
    (hl : s.host.Launching h') : h'.Bounded s.board.limits o where
  processes := by
    have hlt := (Board.canLaunch_iff.1 hc).1
    rw [h.running_eq, List.length_map] at hlt
    rcases hl.uncollected with heq | heq
    · rw [heq]
      omega
    · rw [heq, List.length_append]
      exact hlt
  pipes := by
    have hlt := (Board.canLaunch_iff.1 hc).2.1
    have hlength := h.length_jobEnds
    have hcurrent := h.board.current_le
    obtain ⟨more, hmore, heq⟩ := hl.descriptors
    have hone := (hmore.filter o.isJobEnd).length_le
    have hle : ([.readEnd s.host.pipes, .writeEnd s.host.pipes].filter o.isJobEnd).length ≤ 1 := by
      rw [List.filter_cons, List.filter_cons_of_neg (by simp [Holdings.isJobEnd]), List.filter_nil]
      split <;> simp
    unfold Host.jobEnds at hlength ⊢
    rw [heq, List.filter_append, List.length_append]
    omega

end Session

namespace Run

variable {r r₀ : Run}

theorem Steady.bounded_step (h : r.Steady o) (he : e ∈ r.stepCalls) :
    e.host.Bounded r.session.board.limits o ∧
      (e.place ≠ .launch → e.session.board.running =
        e.host.uncollected.map fun i => (Host.pidOf i, i)) := by
  unfold stepCalls at he
  split at he
  · next hphase =>
      split at he
      · obtain ⟨hplace, hlaunching⟩ := h.sound.launching h.pipes he
        exact ⟨h.sound.bounded_launching (phase_filling_launch hphase) hlaunching,
          fun hne => absurd hplace hne⟩
      · cases he
  · have hplain : Plain .wait r.session.waitCalls := fun e he => (h.sound.waits he).plain
    have hshrinks := (r.session.calls_wait.shrinks hplain).2 e he
    exact ⟨h.sound.bounded.shrinks hshrinks.1, fun _ => (h.sound.waits he).sound.running_eq⟩
  · cases he

theorem bounded_closing {s : Session} (hs : s.Sound o) (hc : e.Closing s) :
    e.host.Bounded s.board.limits o ∧
      e.session.board.running = e.host.uncollected.map fun i => (Host.pidOf i, i) := by
  refine ⟨hs.bounded.closing hc.children hc.descriptors, ?_⟩
  rw [hc.board, Host.uncollected_congr hc.children]
  exact hs.running_eq

section found

variable {c : Config} {platform : Platform} {rounds : List (List Event)} {handler : Handler}
  {wakeup : Option Descriptor} {stream : Bytes}

theorem bounded_found (limits : Limits) {h : Host} (hchildren : h.children = [])
    (hdescriptors : h.descriptors = o.ends ∨
      h.descriptors = o.ends ++ [.readEnd o.pipes, .writeEnd o.pipes]) :
    h.Bounded limits o ∧ h.uncollected = [] := by
  have hnone : h.uncollected = [] := Host.uncollected_congr (h := {}) hchildren
  have hends : h.jobEnds o = [] := by
    unfold Host.jobEnds
    rcases hdescriptors with heq | heq
    · rw [heq, Host.jobEnds_ends]
    · rw [heq, List.filter_append, Host.jobEnds_ends]
      simp [Holdings.isJobEnd]
  refine ⟨⟨?_, ?_⟩, hnone⟩
  · rw [hnone]
    exact Nat.zero_le _
  · rw [hends]
    exact Nat.zero_le _

theorem bounded_call
    (he : e ∈ (prepare c limits (Host.found platform rounds handler wakeup o) stream).calls) :
    e.host.Bounded limits o ∧ (e.place ≠ .launch → e.place ≠ .cleanUp →
      e.session.board.running = e.host.uncollected.map fun i => (Host.pidOf i, i)) := by
  cases occurs_of_mem he with
  | setUp he =>
      obtain ⟨-, hboard, hhost⟩ := Notifier.mem_setUpCalls he
      have hfound : e.host.Bounded limits o ∧ e.host.uncollected = [] := by
        rcases hhost with heq | heq
        · exact bounded_found limits (heq ▸ rfl) (.inl (heq ▸ rfl))
        · exact bounded_found limits (heq ▸ rfl) (.inr (heq ▸ rfl))
      refine ⟨hfound.1, fun _ _ => ?_⟩
      rw [hboard, hfound.2]
      rfl
  | step hr he =>
      obtain ⟨hsteady, hfixed⟩ := steady_of_found hr
      obtain ⟨hbounded, hrunning⟩ := hsteady.bounded_step he
      rw [hfixed.limits] at hbounded
      exact ⟨hbounded, fun hlaunch _ => hrunning hlaunch⟩
  | @cleanUp r failed kind error n host hn hr hs he =>
      obtain ⟨hsound, hlimits⟩ := sound_of_step hr hs
      have hbounded := hlimits ▸ hsound.bounded
      obtain ⟨hall, hentries⟩ :=
        failed.session.calls_abandon.shrinks failed.session.plain_abandonCalls
      rcases List.mem_append.1 he with he | he
      · exact ⟨hbounded.shrinks (hentries e he).1, fun _ hne =>
          absurd (failed.session.plain_abandonCalls e he).1 hne⟩
      · obtain ⟨hplace, hclosing⟩ := Notifier.closing_tearDown he
        exact ⟨(hbounded.shrinks hall).closing hclosing.children hclosing.descriptors,
          fun _ hne => absurd hplace hne⟩
  | @windUp r n host hn hr hdone he =>
      obtain ⟨hsound, hlimits⟩ := sound_of_found hr
      have hclosing : e.Closing r.session := by
        rcases List.mem_append.1 he with he | he
        · exact (Notifier.closing_tearDown he).2
        · exact (closing_conclude he).2
      obtain ⟨hbounded, hrunning⟩ := bounded_closing hsound hclosing
      exact ⟨hlimits ▸ hbounded, fun _ _ => hrunning⟩

theorem bounded_final : (prepare c limits (Host.found platform rounds handler wakeup o)
    stream).execute.final.session.host.Bounded limits o := by
  rcases (prepare c limits (Host.found platform rounds handler wakeup o) stream).execute_cases with
    ⟨error, host, hn, heq⟩ | ⟨n, host, hn, hend⟩
  · obtain ⟨-, rfl⟩ := Notifier.install_error hn
    rw [heq]
    exact (bounded_found limits rfl (.inl rfl)).1
  rcases hend with ⟨last, kind, error, failed, visits, hr, hs, heq⟩ | ⟨done, visits, hr, hdone, heq⟩
  · obtain ⟨hsound, hlimits⟩ := sound_of_step hr hs
    have hbounded := hlimits ▸ hsound.bounded
    have hshrinks := (failed.session.calls_abandon.shrinks failed.session.plain_abandonCalls).1
    rw [heq]
    exact (hbounded.shrinks hshrinks).closing (n.children_remove _) (n.descriptors_remove _)
  · obtain ⟨hsound, hlimits⟩ := sound_of_found hr
    have hbounded := hlimits ▸ hsound.bounded
    obtain ⟨accepted, calls, hframe⟩ := (done.onHost n.remove).conclude_frame
    rw [heq]
    show Host.Bounded (conclude _).2.session.host limits o
    rw [hframe]
    exact hbounded.closing (n.children_remove _) (n.descriptors_remove _)

/-- The calls of a run lead from its start to its end.  Whenever it makes one of them, and when it
is over, the children that were forked and not collected are at most as many as may run at once,
and the read ends held of the pipes of jobs at most as many as may await their turn.  Except within
a launch and after giving up, the children not collected are those that the board believes
running. -/
theorem processes_bounded (c : Config) (limits : Limits) (platform : Platform)
    (rounds : List (List Event)) (handler : Handler) (wakeup : Option Descriptor) (o : Holdings)
    (stream : Bytes) :
    let r₀ := prepare c limits (Host.found platform rounds handler wakeup o) stream
    let final := r₀.execute.final.session
    Calls r₀.session.host r₀.calls final.host ∧
    (∀ e ∈ r₀.calls, e.host.uncollected.length ≤ limits.concurrency ∧
      (e.host.jobEnds o).length ≤ limits.capacity ∧
      (e.place ≠ .launch → e.place ≠ .cleanUp → e.session.board.running =
        e.host.uncollected.map fun i => (Host.pidOf i, i))) ∧
    (final.host.uncollected.length ≤ limits.concurrency ∧
      (final.host.jobEnds o).length ≤ limits.capacity) ∧
    ∀ r, Reached r₀ r →
      r.session.board.running = r.session.host.uncollected.map (fun i => (Host.pidOf i, i)) ∧
      ∀ kind result r', r.step = some (kind, result, r') → r'.session.board.running =
        r'.session.host.uncollected.map fun i => (Host.pidOf i, i) := by
  intro r₀ final
  refine ⟨r₀.calls_execute, fun e he => ?_, ?_, fun r hr => ?_⟩
  · obtain ⟨hbounded, hrunning⟩ := bounded_call he
    exact ⟨hbounded.processes, hbounded.pipes, hrunning⟩
  · have hbounded : final.host.Bounded limits o := bounded_final
    exact ⟨hbounded.processes, hbounded.pipes⟩
  · obtain ⟨hsound, -⟩ := sound_of_found hr
    refine ⟨hsound.running_eq, fun kind result r' hs => ?_⟩
    obtain ⟨hsound', -⟩ := sound_of_step hr hs
    exact hsound'.running_eq

/-- One job runs, as the run waits for it; the first call is the making of the notifier's pipe. -/
theorem processes_bounded_one_running :
    let r₀ := prepare ⟨1, none, true, none, []⟩ ⟨1, 1, by decide, by decide⟩
      (Host.found {} [] .default none {}) [0x61, 0x0a]
    (∃ r, Reached r₀ r ∧ r.session.host.uncollected = [0] ∧
      r.session.board.running = [(Host.pidOf 0, 0)]) ∧
    ∃ e ∈ r₀.calls, e.place = .setUp ∧ e.host.uncollected = [] ∧ e.session.board.running = [] := by
  intro r₀
  have hstart : Reached r₀ _ := .start (n := ⟨0, .default, none⟩) rfl
  have hlaunched : Reached r₀ _ := hstart.step (step_of_filling rfl)
  obtain ⟨-, hcalls, -, hreached⟩ := processes_bounded ⟨1, none, true, none, []⟩
    ⟨1, 1, by decide, by decide⟩ {} [] .default none {} [0x61, 0x0a]
  have hrunning := (hreached _ hlaunched).1
  have hmem : ⟨.setUp, r₀.session, .makePipe⟩ ∈ r₀.calls :=
    List.mem_append_left _ List.mem_cons_self
  have hempty := (hcalls _ hmem).2.2 (by decide) (by decide)
  exact ⟨⟨_, hlaunched, rfl, hrunning.trans rfl⟩, _, hmem, rfl, rfl, hempty.trans rfl⟩

end found

end Run

end OrderedJobs
