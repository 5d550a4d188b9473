import OrderedJobs.CommandLine.Basic
import OrderedJobs.Proofs.ExitCode
import OrderedJobs.Proofs.Validation

/-! # Reporting

What an invocation that asks for a configuration comes to (`Invocation.failures_reported`).  Every
configuration that is accepted leaves room for a job (`Config.limits_of_ofFields`).  A run on it
returns a code between 0 and 255 (`Run.code_of_found`), or it fails for its input or the operating
system, which is reported.  One failure is not: that of the notifier's own pipe, the first that a
run makes, escapes as it came. -/

namespace OrderedJobs

/-! ### The code of a run -/

/-- The aggregate of statuses is an exit code. -/
theorem Session.Ledger.exitCode_bounds {s : Session} (h : s.Ledger) :
    0 ≤ s.board.exitCode ∧ s.board.exitCode ≤ 255 := by
  rw [h.exitCode]
  exact ⟨WaitStatus.le_foldl_fold 0 _,
    WaitStatus.foldl_fold_le (by decide) fun status _ => status.severity_le⟩

namespace Run

variable {c : Config} {limits : Limits} {platform : Platform} {rounds : List (List Event)}
  {handler : Handler} {wakeup : Option Descriptor} {o : Holdings} {stream : Bytes}

theorem code_of_found {code : Int}
    (h : (prepare c limits (Host.found platform rounds handler wakeup o) stream).execute.outcome =
      .ok code) : 0 ≤ code ∧ code ≤ 255 := by
  obtain ⟨n, done, hr, -, heq⟩ := returned_of_execute h
  obtain ⟨hsteady, -⟩ := steady_of_found hr
  rw [conclude_code (congrArg Prod.fst heq)]
  exact hsteady.sound.ledger.exitCode_bounds

/-- A run whose notifier's pipe cannot be made fails with just that error. -/
theorem notifier_of_fault {error : OsError} (h : platform.faults.pipe.error? 0 = some error) :
    (prepare c limits (Host.found platform rounds handler wakeup o) stream).execute.outcome =
      .error (.notifier error) := by
  rcases (prepare c limits (Host.found platform rounds handler wakeup o) stream).execute_cases with
    ⟨error', host, hn, heq⟩ | ⟨n, host, hn, -⟩
  · have hfault : platform.faults.pipe.error? 0 = some error' := (Notifier.install_error hn).1
    rw [h] at hfault
    cases hfault
    rw [heq]
  · have hnone : platform.faults.pipe.error? 0 = none := Notifier.pipe_of_install hn
    rw [h] at hnone
    cases hnone

end Run

/-! ### Answers -/

theorem Failure.External.isReported {e : Failure} (h : e.External) : e.isReported = true := by
  cases h <;> rfl

theorem Platform.isReported_of_requestDeathSignal {p : Platform} {e : Failure}
    (h : p.requestDeathSignal = .error e) : e.isReported = true := by
  unfold requestDeathSignal at h
  split at h
  · cases h
    rfl
  · cases h

/-- An answer gives an exit code, unless the notifier's pipe could not be made. -/
structure Answer.Reported (a : Answer) (p : Platform) : Prop where
  escapes : ∀ x, a.exit = .error x → ∃ error, p.faults.pipe.error? 0 = some error ∧
    x = .failure (.notifier error)
  codes : ∀ code, a.exit = .ok code → 0 ≤ code ∧ code ≤ 255

namespace Answer.Reported

variable {a : Answer} {p : Platform}

theorem of_code {code : Int} (h : a.exit = .ok code) (hbounds : 0 ≤ code ∧ code ≤ 255) :
    a.Reported p where
  escapes := by
    intro x hx
    rw [h] at hx
    cases hx
  codes := by
    intro code' hcode
    rw [h] at hcode
    cases hcode
    exact hbounds

theorem of_escape {error : OsError} (hfault : p.faults.pipe.error? 0 = some error)
    (h : a.exit = .error (.failure (.notifier error))) : a.Reported p where
  escapes := by
    intro x hx
    rw [h] at hx
    cases hx
    exact ⟨error, hfault, rfl⟩
  codes := by
    intro code hcode
    rw [h] at hcode
    cases hcode

end Answer.Reported

namespace Invocation

variable {i : Invocation} {c : Config} {limits : Limits} {f : Config.Fields}

theorem reportFailure_eq {e : Failure} (h : e.isReported = true) (output : Bytes)
    (journal : Journal) (host : Host) : reportFailure e output journal host =
      ⟨.ok 1, output, journal ++ [.failed e], host⟩ := by
  unfold reportFailure
  rw [if_pos h]

theorem run_of_unasked {e : Failure} (h : i.host.platform.requestDeathSignal = .error e) :
    i.run c = ⟨.ok 1, [], [.failed e], i.host⟩ := by
  unfold run
  rw [h]
  exact reportFailure_eq (Platform.isReported_of_requestDeathSignal h) _ _ _

section result

variable {result : Run.Result} (hasked : i.host.platform.requestDeathSignal = .ok ())
  (hrun : c.run i.host i.input = .ok result)

include hasked hrun

theorem run_of_code {code : Int} (h : result.outcome = .ok code) :
    (i.run c).exit = .ok code := by
  unfold run
  rw [hasked]
  dsimp only
  rw [hrun]
  dsimp only
  rw [h]

theorem run_of_failure {e : Failure} (h : result.outcome = .error e) :
    i.run c = reportFailure e result.final.session.host.output result.final.session.journal
      result.final.session.host := by
  unfold run
  rw [hasked]
  dsimp only
  rw [hrun]
  dsimp only
  rw [h]

end result

section found

variable {platform : Platform} {rounds : List (List Event)} {handler : Handler}
  {wakeup : Option Descriptor} {o : Holdings}

/-- What the command line makes of a run. -/
theorem run_found (hhost : i.host = Host.found platform rounds handler wakeup o)
    (hlimits : c.limits = .ok limits) (hasked : platform.requestDeathSignal = .ok ()) :
    ∃ result, c.run i.host i.input = .ok result ∧
      (∀ code, result.outcome = .ok code →
        (0 ≤ code ∧ code ≤ 255) ∧ (i.run c).exit = .ok code) ∧
      (∀ e, result.outcome = .error e → platform.faults.pipe.error? 0 = none →
        e.External ∧ (i.run c).exit = .ok 1 ∧
          (i.run c).journal = result.final.session.journal ++ [.failed e]) ∧
      ∀ error, platform.faults.pipe.error? 0 = some error →
        result.outcome = .error (.notifier error) ∧
          (i.run c).exit = .error (.failure (.notifier error)) := by
  have hasked : i.host.platform.requestDeathSignal = .ok () := by rw [hhost]; exact hasked
  have hrun : c.run i.host i.input = .ok (Run.prepare c limits i.host i.input).execute := by
    unfold Config.run
    rw [hlimits]
  refine ⟨_, hrun, fun code hok => ?_, fun e herr hnone => ?_, fun error hfault => ?_⟩
  · refine ⟨?_, run_of_code hasked hrun hok⟩
    rw [hhost] at hok
    exact Run.code_of_found hok
  · have hexternal : e.External := by
      rw [hhost] at herr
      rcases Run.external_of_found herr with ⟨error, hfault, -⟩ | hexternal
      · rw [hnone] at hfault
        cases hfault
      · exact hexternal
    rw [run_of_failure hasked hrun herr, reportFailure_eq hexternal.isReported]
    exact ⟨hexternal, rfl, rfl⟩
  · have herr : (Run.prepare c limits i.host i.input).execute.outcome =
        .error (.notifier error) := by
      rw [hhost]
      exact Run.notifier_of_fault hfault
    rw [run_of_failure hasked hrun herr]
    exact ⟨herr, rfl⟩

theorem reported_run (hhost : i.host = Host.found platform rounds handler wakeup o)
    (hlimits : c.limits = .ok limits) : (i.run c).Reported platform := by
  have hplatform : i.host.platform = platform := by rw [hhost]; rfl
  cases hasked : platform.requestDeathSignal with
  | error e =>
      rw [run_of_unasked (by rw [hplatform]; exact hasked)]
      exact .of_code rfl (by decide)
  | ok _ =>
      obtain ⟨result, -, hcodes, herrors, hescapes⟩ := run_found hhost hlimits hasked
      cases houtcome : result.outcome with
      | ok code => exact .of_code (hcodes code houtcome).2 (hcodes code houtcome).1
      | error e =>
          cases hfault : platform.faults.pipe.error? 0 with
          | none => exact .of_code (herrors e houtcome hfault).2.1 (by decide)
          | some error => exact .of_escape hfault (hescapes error hfault).2

/-! ### Invocations -/

theorem runFields_interactive (h : i.interactive = true) : i.runFields f = i.help := if_pos h

theorem runFields_eq (h : i.interactive = false) : i.runFields f =
    match Config.ofFields i.processors f with
    | .error faults => i.refuse (Config.describe faults)
    | .ok c => i.run c := if_neg (by rw [h]; decide)

theorem reported_runFields (hhost : i.host = Host.found platform rounds handler wakeup o)
    (hprocessors : ∀ n, i.processors = some n → 0 ≤ n) : (i.runFields f).Reported platform := by
  cases hinteractive : i.interactive with
  | true =>
      rw [runFields_interactive hinteractive]
      exact .of_code rfl (by decide)
  | false =>
      rw [runFields_eq hinteractive]
      cases hfields : Config.ofFields i.processors f with
      | error faults => exact .of_code rfl (by decide)
      | ok c =>
          obtain ⟨limits, hlimits⟩ := Config.limits_of_ofFields hprocessors hfields
          exact reported_run hhost hlimits

end found

/-- No invocation escapes without an exit code, but for the pipe of the notifier: if the first pipe
that a run makes cannot be made, the error is passed on as it came.  All others give a code between
0 and 255: the help text is an answer with 0, a refused configuration and a failure are reported and
give 1, and a run that returns gives its own code. -/
theorem failures_reported (i : Invocation) (f : Config.Fields) (platform : Platform)
    (rounds : List (List Event)) (handler : Handler) (wakeup : Option Descriptor) (o : Holdings)
    (hhost : i.host = Host.found platform rounds handler wakeup o)
    (hprocessors : ∀ n, i.processors = some n → 0 ≤ n) :
    let a := i.runFields f
    (∀ x, a.exit = .error x → ∃ error, platform.faults.pipe.error? 0 = some error ∧
      x = .failure (.notifier error)) ∧
    (∀ code, a.exit = .ok code → 0 ≤ code ∧ code ≤ 255) ∧
    (i.interactive = true → a.exit = .ok 0 ∧ a.output = Bytes.ofString usage) ∧
    (i.interactive = false →
      (∀ faults, Config.ofFields i.processors f = .error faults →
        a.exit = .ok 1 ∧ a.journal = [.refused (Config.describe faults)]) ∧
      ∀ c, Config.ofFields i.processors f = .ok c →
        (∀ e, platform.requestDeathSignal = .error e →
          a.exit = .ok 1 ∧ a.journal = [.failed e]) ∧
        (platform.requestDeathSignal = .ok () → ∃ result, c.run i.host i.input = .ok result ∧
          (∀ code, result.outcome = .ok code → a.exit = .ok code) ∧
          (∀ e, result.outcome = .error e → platform.faults.pipe.error? 0 = none →
            e.External ∧ a.exit = .ok 1 ∧
              a.journal = result.final.session.journal ++ [.failed e]) ∧
          ∀ error, platform.faults.pipe.error? 0 = some error →
            result.outcome = .error (.notifier error) ∧
              a.exit = .error (.failure (.notifier error)))) := by
  intro a
  obtain ⟨hescapes, hcodes⟩ := reported_runFields (f := f) hhost hprocessors
  refine ⟨hescapes, hcodes, fun hinteractive => ?_, fun hinteractive =>
    ⟨fun faults hfaults => ?_, fun c hfields => ⟨fun e he => ?_, fun hasked => ?_⟩⟩⟩
  · rw [show a = _ from runFields_interactive hinteractive]
    exact ⟨rfl, by rw [help]⟩
  · rw [show a = _ from runFields_eq hinteractive, hfaults]
    exact ⟨rfl, rfl⟩
  · have hfails : i.host.platform.requestDeathSignal = .error e := by rw [hhost]; exact he
    rw [show a = _ from runFields_eq hinteractive, hfields]
    dsimp only
    rw [run_of_unasked hfails]
    exact ⟨rfl, rfl⟩
  · obtain ⟨limits, hlimits⟩ := Config.limits_of_ofFields hprocessors hfields
    obtain ⟨result, hrun, hcodes, herrors, hescapes⟩ := run_found hhost hlimits hasked
    rw [show a = _ from runFields_eq hinteractive, hfields]
    exact ⟨result, hrun, fun code hok => (hcodes code hok).2, herrors, hescapes⟩

/-- Two jobs may run, and no pipe can be made. -/
theorem failures_reported_no_pipe :
    let error : OsError := ⟨24, "Too many open files"⟩
    let platform : Platform := { faults := { pipe := some (0, error) } }
    let host := Host.found platform [] .default none {}
    let i : Invocation := { arguments := [], input := [0x61, 0x0a], host }
    (i.runFields { jobs := some (.int 2) }).exit = .error (.failure (.notifier error)) := by
  intro error platform host i
  obtain ⟨-, -, -, hanswers⟩ := failures_reported i { jobs := some (.int 2) } platform [] .default
    none {} rfl (fun n hn => by cases hn)
  have hfields : Config.ofFields i.processors { jobs := some (.int 2) } =
      .ok ⟨2, none, false, none, []⟩ := rfl
  obtain ⟨result, -, -, -, hescapes⟩ := ((hanswers rfl).2 _ hfields).2 rfl
  exact (hescapes error rfl).2

end Invocation

end OrderedJobs
