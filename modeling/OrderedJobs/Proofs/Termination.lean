import OrderedJobs.Proofs.Reached

/-! # Termination and freedom from deadlock

A run goes round its loop finitely often, whatever comes in and whatever the operating system does
(`Run.ends_steps`): each step that succeeds lowers a measure.  That alone would allow it to wait for
nothing.  It never does so (`Run.ends_without_deadlock`): whenever it waits, something is ready, or
there is a round of events to come, or a child that has not ended or whose pipe is still held; and
the wait is answered with something ready. -/

namespace OrderedJobs.Run

variable {r r' r₀ final : Run} {n : Nat} {outcome : Except Failure Unit}

/-- The loop of a run goes round a number of times, and then the run is done or a step fails. -/
inductive Ends : Run → Nat → Except Failure Unit → Run → Prop
  | done {r : Run} (h : r.step = none) : Ends r 0 (.ok ()) r
  | failed {r r' : Run} {kind : StepKind} {e : Failure} (h : r.step = some (kind, .error e, r')) :
      Ends r 1 (.error e) r'
  | next {r r' final : Run} {kind : StepKind} {n : Nat} {outcome : Except Failure Unit}
      (h : r.step = some (kind, .ok (), r')) (hends : Ends r' n outcome final) :
      Ends r (n + 1) outcome final

/-- Every run comes to an end, by induction on the measure that its steps lower. -/
theorem ends_steps (r : Run) : Ends r r.steps.visits.length r.steps.outcome r.steps.final := by
  fun_induction steps r with
  | case1 r h => exact .done h
  | case2 r kind e r' h => exact .failed h
  | case3 r kind r' h t ih => exact .next h ih

theorem Ends.reached (h : Ends r n outcome final) (hr : Reached r₀ r) :
    (outcome = .ok () ∧ Reached r₀ final ∧ final.step = none) ∨
    ∃ last kind e, outcome = .error e ∧ Reached r₀ last ∧
      last.step = some (kind, .error e, final) := by
  induction h with
  | done h => exact .inl ⟨rfl, hr, h⟩
  | failed h => exact .inr ⟨_, _, _, rfl, hr, h⟩
  | next h _ ih => exact ih (hr.step h)

theorem execute_cases (r₀ : Run) :
    (∃ e host, Notifier.install r₀.session.host = (.error e, host) ∧
      r₀.execute = ⟨.error (.notifier e), [], r₀.onHost fun _ => host⟩) ∨
    ∃ n host, Notifier.install r₀.session.host = (.ok n, host) ∧
      ((∃ last kind e final visits, Reached r₀ last ∧ last.step = some (kind, .error e, final) ∧
          r₀.execute = ⟨.error e, visits, (final.onSession Session.abandon).onHost n.remove⟩) ∨
        ∃ final visits, Reached r₀ final ∧ final.step = none ∧
          r₀.execute = ⟨(final.onHost n.remove).conclude.1, visits,
            (final.onHost n.remove).conclude.2⟩) := by
  cases hinstall : Notifier.install r₀.session.host with
  | mk result host =>
      cases result with
      | error e =>
          left
          refine ⟨e, host, rfl, ?_⟩
          unfold execute
          rw [hinstall]
      | ok n =>
          right
          refine ⟨n, host, rfl, ?_⟩
          have hends := ends_steps (r₀.onHost fun _ => host)
          have hexec : r₀.execute = (r₀.onHost fun _ => host).underNotifier n := by
            unfold execute
            rw [hinstall]
          rw [hexec]
          unfold underNotifier
          rcases hends.reached (.start hinstall) with
            ⟨hok, hr, hdone⟩ | ⟨last, kind, e, herr, hr, hs⟩
          · right
            dsimp only
            rw [hok]
            exact ⟨_, _, hr, hdone, rfl⟩
          · left
            dsimp only
            rw [herr]
            exact ⟨last, kind, e, _, _, hr, hs, rfl⟩

theorem returned_of_execute {code : Int} (h : r₀.execute.outcome = .ok code) :
    ∃ (n : Notifier) (done : Run), Reached r₀ done ∧ done.step = none ∧
      (done.onHost n.remove).conclude = (.ok code, r₀.execute.final) := by
  rcases r₀.execute_cases with ⟨e, host, -, heq⟩ | ⟨n, host, -, hend⟩
  · rw [heq] at h
    cases h
  rcases hend with ⟨last, kind, e, final, visits, -, -, heq⟩ | ⟨final, visits, hr, hdone, heq⟩
  · rw [heq] at h
    cases h
  · refine ⟨n, final, hr, hdone, ?_⟩
    rw [heq] at h ⊢
    exact Prod.ext h rfl

theorem visits_execute {n : Notifier} {host : Host}
    (h : Notifier.install r₀.session.host = (.ok n, host)) :
    r₀.execute.visits = (r₀.onHost fun _ => host).steps.visits := by
  unfold execute
  rw [h]
  unfold underNotifier
  dsimp only
  split <;> rfl

theorem conclude_outcome (r : Run) :
    (∃ e, r.conclude.1 = .error (.system .write e)) ∨ ∃ code, r.conclude.1 = .ok code := by
  unfold conclude
  have hpresent := r.session.present_result r.session.display.onFinish
  split
  · next e s heq =>
      rcases hpresent with hok | ⟨error, herr⟩
      · rw [show r.session.present _ = _ from heq] at hok
        cases hok
      · rw [show r.session.present _ = _ from heq] at herr
        cases herr
        exact .inl ⟨error, rfl⟩
  · exact .inr ⟨_, rfl⟩

theorem conclude_ne_badLine (r : Run) (fault : LineFault) (line : Bytes) :
    r.conclude.1 ≠ .error (.badLine fault line) := by
  intro h
  rcases r.conclude_outcome with ⟨e, hwrite⟩ | ⟨code, hok⟩
  · cases hwrite.symm.trans h
  · cases hok.symm.trans h

theorem conclude_frame (r : Run) : ∃ accepted calls, r.conclude.2.session.host =
    { r.session.host with accepted := accepted, writeCalls := calls } := by
  obtain ⟨accepted, calls, hframe⟩ := r.session.present_frame r.session.display.onFinish
  have hhost := congrArg Session.host hframe
  refine ⟨accepted, calls, ?_⟩
  unfold conclude
  split
  all_goals
    next heq =>
    rw [show r.session.present _ = _ from heq] at hhost
    exact hhost

/-- A run that fails does so because its notifier cannot be installed, or for its input or the
operating system. -/
theorem external_of_found {c : Config} {limits : Limits} {platform : Platform}
    {rounds : List (List Event)} {handler : Handler} {wakeup : Option Descriptor} {o : Holdings}
    {stream : Bytes} {e : Failure}
    (h : (prepare c limits (Host.found platform rounds handler wakeup o) stream).execute.outcome =
      .error e) :
    (∃ error, platform.faults.pipe.error? 0 = some error ∧ e = .notifier error) ∨ e.External := by
  rcases (prepare c limits (Host.found platform rounds handler wakeup o) stream).execute_cases with
    ⟨error, host, hn, heq⟩ | ⟨n, host, -, hend⟩
  · rw [heq] at h
    cases h
    exact .inl ⟨error, (Notifier.install_error hn).1, rfl⟩
  rcases hend with ⟨last, kind, e', final, visits, hr, hs, heq⟩ | ⟨final, visits, -, -, heq⟩
  · rw [heq] at h
    cases h
    obtain ⟨hsteady, -⟩ := steady_of_found hr
    exact .inr ((hsteady.step hs).external e rfl)
  · rw [heq] at h
    rcases (final.onHost n.remove).conclude_outcome with ⟨error, hout⟩ | ⟨code, hout⟩
    · rw [show (final.onHost n.remove).conclude.1 = _ from h] at hout
      cases hout
      exact .inr (.system _ _)
    · rw [show (final.onHost n.remove).conclude.1 = _ from h] at hout
      cases hout

theorem external_of_execute {c : Config} {limits : Limits} {platform : Platform}
    {rounds : List (List Event)} {handler : Handler} {stream : Bytes} {e : Failure}
    (h : (prepare c limits (Host.fresh platform rounds handler) stream).execute.outcome =
      .error e) :
    (∃ error, e = .notifier error) ∨ e.External := by
  rcases external_of_found (o := {}) h with ⟨error, -, heq⟩ | hexternal
  · exact .inl ⟨error, heq⟩
  · exact .inr hexternal

/-- A run goes round finitely often and never waits for nothing. -/
theorem ends_without_deadlock (c : Config) (limits : Limits) (platform : Platform)
    (rounds : List (List Event)) (handler : Handler) (stream : Bytes) :
    let r₀ := prepare c limits (Host.fresh platform rounds handler) stream
    (∀ n host, Notifier.install r₀.session.host = (.ok n, host) →
      ∃ outcome final, Ends (r₀.onHost fun _ => host) r₀.execute.visits.length outcome final) ∧
    (∀ r, Reached r₀ r → r.session.board.phase = .waiting →
      ((r.session.host.readiness r.session.awaited).any = true ∨ r.session.host.rounds ≠ [] ∨
        ∃ (i : Nat) (child : Child), r.session.host.children[i]? = some child ∧
          child.unsettled = true) ∧
      (r.session.host.poll r.session.awaited).1.any = true) ∧
    r₀.execute.outcome ≠ .error .stalled := by
  intro r₀
  refine ⟨fun n host hinstall => ?_, fun r hr hphase => ?_, fun hstalled => ?_⟩
  · have hends := ends_steps (r₀.onHost fun _ => host)
    rw [← visits_execute hinstall] at hends
    exact ⟨_, _, hends⟩
  · obtain ⟨hsteady, -⟩ := steady_of_reached hr
    constructor
    · exact hsteady.sound.can_wait hsteady.announced hphase
    · exact hsteady.sound.poll_ready hsteady.announced hphase
  · rcases external_of_execute hstalled with ⟨error, herr⟩ | hext
    · cases herr
    · cases hext

/-- With one job running and no event to come, the wait is answered by the end of the child. -/
theorem ends_without_deadlock_one_running :
    let r₀ := prepare ⟨1, none, true, none, []⟩ ⟨1, 1, by decide, by decide⟩
      (Host.fresh {} [] .default) [0x61, 0x0a]
    ∃ r, Reached r₀ r ∧ r.session.board.phase = .waiting ∧ r.session.host.rounds = [] ∧
      (r.session.host.poll r.session.awaited).1.any = true := by
  intro r₀
  have hstart : Reached r₀ _ := .start (n := ⟨0, .default, none⟩) rfl
  have hlaunched : Reached r₀ _ := hstart.step (step_of_filling rfl)
  have hwaits := (ends_without_deadlock ⟨1, none, true, none, []⟩ ⟨1, 1, by decide, by decide⟩
    {} [] .default [0x61, 0x0a]).2.1 _ hlaunched rfl
  exact ⟨_, hlaunched, rfl, rfl, hwaits.2⟩

end OrderedJobs.Run
