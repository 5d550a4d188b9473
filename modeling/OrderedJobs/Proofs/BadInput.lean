import OrderedJobs.Proofs.LineGrammar
import OrderedJobs.Proofs.OutputOrder

/-! # Input that is refused

A run pulls one command for each of its children (`Run.Pulled`).  So where a line is refused, all
lines before it were launched; and if no call of the parent fails, the run gets to that line and
fails on it (`Run.outcome_of_refused`).

At that moment the jobs before the cursor are drained, and the output has all that they contribute.
Contributions are settled before the run begins, whatever the lines are (`Run.fate_of_reached`).
Chunks are copied as they come, so the output has also what was copied of the job at the cursor by
then, and that job need not be drained (`Run.copied_before_bad_line`).  It has nothing of any other
job, and giving up adds nothing to it (`Run.bad_line_discards`). -/

namespace OrderedJobs

/-- What the lines of a stream contribute, each by itself. -/
def contributions (p : Platform) (quiet : Bool) (events : List Event) (leading : Command)
    (stream : Bytes) : List Bytes :=
  (Source.lines stream).mapIdx fun i text => contribution p quiet events i (Line.argv leading text)

namespace Source

variable {leading : Command} {s next : Source} {k n : Nat}

theorem pull_of_refused (hbefore : ∀ j < n, ∃ c, ((s.after leading j).pull leading).1 = .command c)
    (hend : ∀ c, ((s.after leading n).pull leading).1 ≠ .command c) {fault : LineFault}
    {line : Bytes} (hk : (s.after leading k).pull leading = (.refused fault line, next)) :
    (s.after leading n).pull leading = (.refused fault line, next) := by
  rcases Nat.lt_trichotomy k n with hlt | rfl | hgt
  · obtain ⟨c, hc⟩ := hbefore k hlt
    rw [hk] at hc
    cases hc
  · exact hk
  · rw [ends_after hend hgt] at hk
    cases hk

end Source

/-! ### Pulls and children -/

namespace Run

variable {start : Source} {r r' r₀ : Run} {o : Holdings} {kind : StepKind} {fault : LineFault}
  {line : Bytes}

/-- A run has pulled one command for each of its children, and then perhaps the end of the input. -/
structure Pulled (start : Source) (r : Run) : Prop where
  commands : ∀ j < r.session.host.children.length,
    ∃ c, ((start.after r.leading j).pull r.leading).1 = .command c
  source : r.session.board.exhausted = false →
    r.source = start.after r.leading r.session.host.children.length
  ended : r.session.board.exhausted = true →
    ((start.after r.leading r.session.host.children.length).pull r.leading).1 = .exhausted

theorem Pulled.step (hp : Pulled start r) (h : r.Steady o)
    (hs : r.step = some (kind, .ok (), r')) : Pulled start r' := by
  cases h.stepping hs with
  | exhausted source hphase hpull =>
      rw [hp.source (phase_filling hphase)] at hpull
      exact ⟨hp.commands, fun hfalse => (by cases hfalse), fun _ => congrArg Prod.fst hpull⟩
  | launched command source hphase hpull =>
      have hmore := phase_filling hphase
      rw [hp.source hmore] at hpull
      have hlength : (r.session.launched command (r.echo command)).host.children.length =
          r.session.host.children.length + 1 := Host.length_grown
      refine ⟨fun j hj => ?_, fun _ => ?_, fun htrue => ?_⟩
      · rcases Nat.lt_succ_iff_lt_or_eq.1 (hlength ▸ hj) with hlt | rfl
        · exact hp.commands j hlt
        · exact ⟨command, congrArg Prod.fst hpull⟩
      · rw [hlength]
        exact (congrArg Prod.snd hpull).symm
      · rw [show r.session.board.exhausted = true from htrue] at hmore
        cases hmore
  | @waited result session hphase hwait =>
      obtain ⟨-, hhandled, -⟩ := h.sound.wait h.announced hphase
      rw [hwait] at hhandled
      have hlength : session.host.children.length = r.session.host.children.length :=
        hhandled.host.length.trans h.sound.later_polled.length
      have hexhausted : session.board.exhausted = r.session.board.exhausted := hhandled.exhausted
      constructor
      · show ∀ j < session.host.children.length, _
        rw [hlength]
        exact hp.commands
      · show session.board.exhausted = false → r.source = _
        rw [hexhausted, hlength]
        exact hp.source
      · show session.board.exhausted = true → _
        rw [hexhausted, hlength]
        exact hp.ended

/-- The moment a run comes to a line that is refused: `k` commands were pulled, and the jobs before
the `n`-th are drained. -/
structure Refusal (r₀ : Run) (fault : LineFault) (line : Bytes) (k n : Nat) (r : Run) : Prop where
  reached : Reached r₀ r
  step : r.step = some (.launch, .error (.badLine fault line),
    { r with source := r₀.source.after r₀.leading (k + 1) })
  source : r.source = r₀.source.after r₀.leading k
  pull : (r.source.pull r₀.leading).1 = .refused fault line
  children : r.session.host.children.length = k
  current : r.session.board.current = n
  drained : ∀ (i : Nat) (job : Job), r.session.board.jobs[i]? = some job →
    (job.drained = true ↔ i < n)

/-! ### Runs that come to a line that is refused -/

section fresh

variable {c : Config} {limits : Limits} {platform : Platform} {rounds : List (List Event)}
  {handler : Handler} {stream : Bytes}

theorem pulled_of_reached
    (h : Reached (prepare c limits (Host.fresh platform rounds handler) stream) r) :
    Pulled { rest := stream } r := by
  induction h with
  | start hn =>
      obtain ⟨-, rfl⟩ := Notifier.install_ok hn
      exact ⟨fun j hj => (by cases hj), fun _ => rfl, fun htrue => (by cases htrue)⟩
  | step hr hs ih =>
      obtain ⟨hsteady, -⟩ := steady_of_reached hr
      exact ih.step hsteady hs

theorem outcome_of_refused (hspare : platform.faults.SpareParent) {k : Nat} {next : Source}
    (hk : (({ rest := stream } : Source).after c.leading k).pull c.leading =
      (.refused fault line, next)) :
    (prepare c limits (Host.fresh platform rounds handler) stream).execute.outcome =
      .error (.badLine fault line) := by
  let r₀ := prepare c limits (Host.fresh platform rounds handler) stream
  obtain ⟨n, hend⟩ := r₀.execute_cases_spared hspare
  rcases hend with ⟨last, kind, e, final, visits, hr, hs, heq⟩ | ⟨done, visits, hr, hdone, -⟩
  · obtain ⟨hsteady, hfixed⟩ := steady_of_reached hr
    have hpulled := pulled_of_reached hr
    have hspare : last.session.host.platform.faults.SpareParent := hfixed.platform ▸ hspare
    rcases hsteady.step_spared hspare hs with hok | ⟨fault', line', source, herr, hphase, hpull⟩
    · cases hok
    · rw [← show last.leading = c.leading from hfixed.leading] at hk
      rw [hpulled.source (phase_filling hphase)] at hpull
      -- No pull before it was refused, so this is the one that is.
      have hfirst := Source.pull_of_refused hpulled.commands
        (fun command hcommand => by rw [hpull] at hcommand; cases hcommand) hk
      cases hpull.symm.trans hfirst
      obtain rfl := Except.error.inj herr
      exact congrArg Result.outcome heq
  · obtain ⟨-, hfixed⟩ := steady_of_reached hr
    have hpulled := pulled_of_reached hr
    obtain ⟨hexhausted, -, -⟩ := done_of_step_none hdone
    have hended := hpulled.ended hexhausted
    rw [← show done.leading = c.leading from hfixed.leading] at hk
    -- Such a run has pulled commands and the end of the input, and nothing that is refused.
    have hfirst := Source.pull_of_refused hpulled.commands
      (fun command hcommand => by rw [hended] at hcommand; cases hcommand) hk
    rw [hfirst] at hended
    cases hended

theorem step_of_outcome
    (herr : (prepare c limits (Host.fresh platform rounds handler) stream).execute.outcome =
      .error (.badLine fault line)) :
    ∃ last failed, Reached (prepare c limits (Host.fresh platform rounds handler) stream) last ∧
      last.step = some (.launch, .error (.badLine fault line), failed) := by
  let r₀ := prepare c limits (Host.fresh platform rounds handler) stream
  have herr : r₀.execute.outcome = .error (.badLine fault line) := herr
  rcases r₀.execute_cases with ⟨e, host, -, heq⟩ | ⟨n, host, -, hend⟩
  · rw [heq] at herr
    cases herr
  rcases hend with ⟨last, kind, e, failed, visits, hr, hs, heq⟩ | ⟨done, visits, -, -, heq⟩
  · rw [heq] at herr
    obtain rfl := Except.error.inj herr
    obtain ⟨hsteady, -⟩ := steady_of_reached hr
    obtain ⟨rfl, -⟩ := hsteady.step_badLine hs
    exact ⟨last, failed, hr, hs⟩
  · rw [heq] at herr
    exact absurd herr ((done.onHost n.remove).conclude_ne_badLine fault line)

theorem refusal_of_step {last failed : Run}
    (hr : Reached (prepare c limits (Host.fresh platform rounds handler) stream) last)
    (hs : last.step = some (kind, .error (.badLine fault line), failed)) :
    Refusal (prepare c limits (Host.fresh platform rounds handler) stream) fault line
      last.session.host.children.length last.session.board.current.toNat last := by
  obtain ⟨hsteady, hfixed⟩ := steady_of_reached hr
  obtain ⟨-, hphase, hpull, -⟩ := hsteady.step_badLine hs
  have hleading : last.leading = c.leading := hfixed.leading
  have hsource := (pulled_of_reached hr).source (phase_filling hphase)
  have hnn := hsteady.sound.board.current_nonneg
  rw [hleading] at hsource
  constructor
  case reached => exact hr
  case step =>
    have hnext : failed.source = ({ rest := stream } : Source).after c.leading
        (last.session.host.children.length + 1) := by
      rw [Source.after, ← hsource, ← hleading, hpull]
    rw [hnext] at hpull
    exact step_of_refused hphase hpull
  case source => exact hsource
  case pull =>
    rw [hleading] at hpull
    exact congrArg Prod.fst hpull
  case children => rfl
  case current => exact (Int.toNat_of_nonneg hnn).symm
  case drained =>
    intro i job hjob
    rw [(hsteady.sound.board.kept i job hjob).drained]
    omega

/-! ### What the output has by then -/

theorem fate_of_reached (hprogress : c.showsProgress platform.terminal = false)
    (h : Reached (prepare c limits (Host.fresh platform rounds handler) stream) r) {i : Nat}
    {child : Child} (hchild : r.session.host.children[i]? = some child) :
    (contributions platform c.quiet rounds.flatten c.leading stream)[i]? =
      some (child.fate i r.session.host.rounds.flatten) := by
  have hborn := (promised_of_reached Child.lasting_written (newborns_contributed hprogress) h).born
    i child hchild
  rw [Child.written_foldl_undergo] at hborn
  have hlt := (List.getElem?_eq_some_iff.1 hchild).1
  have hcommand := congrArg (·[i]?) (commands_of_found (o := {}) h)
  rw [List.getElem?_map, hchild, List.getElem?_map, List.getElem?_take, if_pos hlt] at hcommand
  obtain ⟨text, htext, hargv⟩ := Option.map_eq_some_iff.1 hcommand.symm
  rw [contributions, List.getElem?_mapIdx, htext, Option.map_some, hborn, ← hargv]
  rfl

theorem contents_of_reached (hprogress : c.showsProgress platform.terminal = false)
    (h : Reached (prepare c limits (Host.fresh platform rounds handler) stream) r) :
    let n := r.session.board.current.toNat
    r.session.host.contents.take n =
      (contributions platform c.quiet rounds.flatten c.leading stream).take n := by
  intro n
  obtain ⟨hsteady, -⟩ := steady_of_reached h
  have hlength := hsteady.sound.length_eq
  have hle := hsteady.sound.board.current_le
  refine List.ext_getElem? fun i => ?_
  rw [List.getElem?_take, List.getElem?_take]
  by_cases hi : i < n
  · have hchild := List.getElem?_eq_getElem (show i < r.session.host.children.length by omega)
    obtain ⟨-, hheld⟩ := hsteady.sound.waiting_before i _ hi hchild
    rw [if_pos hi, if_pos hi, fate_of_reached hprogress h hchild, Host.contents,
      List.getElem?_map, hchild, Option.map_some,
      Child.fate_of_not_writing (Child.writing_of_not_held hheld)]
  · rw [if_neg hi, if_neg hi]

/-- What was taken from a pipe is the beginning of what its job contributes. -/
theorem passed_of_reached (hprogress : c.showsProgress platform.terminal = false)
    (h : Reached (prepare c limits (Host.fresh platform rounds handler) stream) r) (i : Nat) :
    r.session.host.passedOf i <+:
      ((contributions platform c.quiet rounds.flatten c.leading stream)[i]?).getD [] := by
  unfold Host.passedOf
  cases hchild : r.session.host.children[i]? with
  | none => exact List.nil_prefix
  | some child =>
      rw [fate_of_reached hprogress h hchild, Child.fate, Child.written, List.append_assoc]
      exact List.prefix_append _ _

theorem output_of_failed {last failed : Run} {e : Failure}
    (hr : Reached (prepare c limits (Host.fresh platform rounds handler) stream) last)
    (hs : last.step = some (kind, .error e, failed)) :
    let final := (prepare c limits (Host.fresh platform rounds handler) stream).execute.final
    final.session.host.output = failed.session.host.output ∧
      ∀ i, final.session.host.passedOf i = failed.session.host.passedOf i := by
  intro final
  obtain ⟨hsteady, -⟩ := steady_of_reached hr
  have habandoned := (hsteady.step hs).sound.abandoned
  obtain ⟨-, wakeup, handler', calls, hfinal⟩ := final_of_failed hr hs
  rw [show final.session = _ from hfinal]
  refine ⟨Host.output_congr habandoned.accepted, fun i => ?_⟩
  rw [Host.passedOf_eq, Host.passedOf_eq]
  exact congrArg (fun l : List Bytes => (l[i]?).getD []) habandoned.map_passed

/-- A run fails on the first line that is refused, if no call of the parent fails before.  Where it
fails on a line, the jobs before the cursor are drained, and the output is all that they contribute,
followed by what was copied of the job at the cursor before the line was read.  It has nothing of
any other job, and nothing was copied since. -/
theorem bad_line_discards (c : Config) (limits : Limits) (platform : Platform)
    (hprogress : c.showsProgress platform.terminal = false) (rounds : List (List Event))
    (handler : Handler) (stream : Bytes) :
    let r₀ := prepare c limits (Host.fresh platform rounds handler) stream
    let start : Source := { rest := stream }
    let whole := contributions platform c.quiet rounds.flatten c.leading stream
    let final := r₀.execute.final.session.host
    (∀ k fault line next, platform.faults.SpareParent →
      (start.after c.leading k).pull c.leading = (.refused fault line, next) →
      r₀.execute.outcome = .error (.badLine fault line)) ∧
    ∀ fault line, r₀.execute.outcome = .error (.badLine fault line) →
      ∃ k n last, Refusal r₀ fault line k n last ∧ n ≤ k ∧
        final.output = (whole.take n).flatten ++ final.passedOf n ∧
        final.passedOf n <+: (whole[n]?).getD [] ∧
        (∀ i, n < i → final.passedOf i = []) ∧
        final.output = last.session.host.output ∧
        ∀ i, final.passedOf i = last.session.host.passedOf i := by
  intro r₀ start whole final
  refine ⟨fun k fault line next hspare hk => outcome_of_refused hspare hk,
    fun fault line herr => ?_⟩
  obtain ⟨last, failed, hr, hs⟩ := step_of_outcome herr
  obtain ⟨hsteady, -⟩ := steady_of_reached hr
  obtain ⟨-, -, -, hsession⟩ := hsteady.step_badLine hs
  obtain ⟨hout, hpassed⟩ := output_of_failed hr hs
  rw [hsession] at hout hpassed
  refine ⟨_, _, last, refusal_of_step hr hs, ?_, ?_, ?_, fun i hi => ?_, hout, hpassed⟩
  · have hle := hsteady.sound.board.current_le
    have hlength := hsteady.sound.length_eq
    omega
  · rw [hout, hpassed, ← contents_of_reached hprogress hr, ← hsteady.sound.flatMap_passed]
    exact copied_of_reached hprogress hr
  · rw [hpassed]
    exact passed_of_reached hprogress hr _
  · rw [hpassed]
    exact hsteady.sound.passedOf_after hi

/-- Two lines are commands and the third lacks its terminator.  The first job says more than its
echo. -/
theorem bad_line_discards_third :
    let r₀ := prepare ⟨1, some 2, false, none, []⟩ ⟨1, 2, by decide, by decide⟩
      (Host.fresh {} [[.data 0 [0x78], .finish 0 0 false]] .default)
      [0x61, 0x0a, 0x62, 0x0a, 0x63]
    let final := r₀.execute.final.session.host
    r₀.execute.outcome = .error (.badLine .missingNewline [0x63]) ∧
      ∃ n, final.output = ([[0x61, 0x0a, 0x78], [0x62, 0x0a], [0x63, 0x0a]].take n).flatten ++
          final.passedOf n ∧
        ∀ i, n < i → final.passedOf i = [] := by
  intro r₀ final
  obtain ⟨hrefused, hfailed⟩ := bad_line_discards ⟨1, some 2, false, none, []⟩
    ⟨1, 2, by decide, by decide⟩ {} rfl [[.data 0 [0x78], .finish 0 0 false]] .default
    [0x61, 0x0a, 0x62, 0x0a, 0x63]
  have herr := hrefused 2 .missingNewline [0x63] _ ⟨rfl, rfl, rfl, rfl, rfl⟩ rfl
  obtain ⟨k, n, last, -, -, hout, -, hafter, -⟩ := hfailed _ _ herr
  exact ⟨herr, n, hout, hafter⟩

/-- What a job has said may have been copied before the job is drained: the first job is reaped
while its pipe is held, and then there is room for the second line, which lacks its terminator. -/
theorem copied_before_bad_line :
    let r₀ := prepare ⟨1, some 2, true, none, []⟩ ⟨1, 2, by decide, by decide⟩
      (Host.fresh {} [[.data 0 [0x78]], [.finish 0 0 true]] .default) [0x61, 0x0a, 0x62]
    let final := r₀.execute.final.session.host
    (∃ last, Refusal r₀ .missingNewline [0x62] 1 0 last ∧
      last.session.board.jobs.map Job.drained = [false]) ∧
    r₀.execute.outcome = .error (.badLine .missingNewline [0x62]) ∧
    final.passedOf 0 = [0x78] ∧ final.output = [0x78] := by
  intro r₀ final
  have hstart : Reached r₀ _ := .start (n := ⟨0, .default, none⟩) rfl
  have hlaunched := hstart.launch (by decide +kernel) (by decide +kernel)
  have hcopied := hlaunched.wait (by decide +kernel) (by decide +kernel)
  have hreaped := hcopied.wait (by decide +kernel) (by decide +kernel)
  obtain ⟨last, hr, hphase, hlength, hcurrent, hjobs, hfirst, hall⟩ : ∃ last, Reached r₀ last ∧
      last.session.board.phase = .filling ∧ last.session.host.children.length = 1 ∧
      last.session.board.current = 0 ∧ last.session.board.jobs.map Job.drained = [false] ∧
      last.session.host.passedOf 0 = [0x78] ∧ last.session.host.output = [0x78] :=
    ⟨_, hreaped, by decide +kernel, by decide +kernel, by decide +kernel, by decide +kernel,
      by decide +kernel, by decide +kernel⟩
  -- The one command was pulled, and what is left of the stream is refused.
  have hleading : last.leading = [] := (steady_of_reached hr).2.leading
  have hsource := (pulled_of_reached hr).source (phase_filling hphase)
  rw [hlength, hleading] at hsource
  obtain ⟨source, hpull⟩ : ∃ source,
      last.source.pull last.leading = (.refused .missingNewline [0x62], source) := by
    rw [hsource, hleading]
    exact ⟨_, rfl⟩
  have hstep := step_of_refused hphase hpull
  have hrefusal := refusal_of_step hr hstep
  rw [hlength, hcurrent] at hrefusal
  obtain ⟨houtcome, -⟩ := final_of_failed hr hstep
  obtain ⟨hout, hpassed⟩ := output_of_failed hr hstep
  exact ⟨⟨last, hrefusal, hjobs⟩, houtcome, (hpassed 0).trans hfirst, hout.trans hall⟩

end fresh

end Run

end OrderedJobs
