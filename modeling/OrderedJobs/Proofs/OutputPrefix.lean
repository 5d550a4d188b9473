import Mathlib.Logic.Relation
import OrderedJobs.Proofs.Copying
import OrderedJobs.Proofs.FailedRuns

/-! # The output at any moment

Without progress, the output of a run is at any moment the whole contents of the pipes before the
cursor, followed by what was taken from the pipe at the cursor (`Sound.flatMap_passed`).  The pipes
before the cursor are complete: nobody holds them for writing any more, and what cannot be written
to stays as it is (`Host.Onward`).  So when a run fails, wherever that happens, the output is a
prefix of what the children have written, one after the other; giving up adds nothing to it
(`Run.output_so_far`). -/

namespace OrderedJobs

/-! ### Complete pipes -/

/-- A pipe that cannot be written to any more stays so, with the same contents. -/
structure Child.Onward (c c' : Child) : Prop where
  writing : c.writing = false → c'.writing = false
  written : c.writing = false → c'.written = c.written

theorem Child.Onward.refl (c : Child) : c.Onward c := ⟨id, fun _ => rfl⟩

theorem Child.Onward.trans {c d e : Child} (h : c.Onward d) (k : d.Onward e) : c.Onward e :=
  ⟨fun hw => k.writing (h.writing hw), fun hw => (k.written (h.writing hw)).trans (h.written hw)⟩

theorem Child.Later.onward {c c' : Child} (h : c.Later c') : c.Onward c' where
  writing := h.writing
  written := by
    intro hw
    obtain ⟨more, hmore, hnil⟩ := h.waiting
    unfold Child.written
    rw [h.passed, hmore, hnil hw, List.append_nil]

theorem Child.Handled.onward {c c' : Child} (h : c.Handled c') : c.Onward c' where
  writing := fun hw => h.writing.trans hw
  written := fun _ => h.written

/-- Complete pipes stay as they are. -/
def Host.Onward (h h' : Host) : Prop :=
  ∀ (i : Nat) (c : Child), h.children[i]? = some c →
    ∃ c', h'.children[i]? = some c' ∧ c.Onward c'

namespace Host

variable {h h' : Host} {n : Nat}

/-- All the bytes ever written into each pipe. -/
def contents (h : Host) : List Bytes := h.children.map Child.written

/-- The bytes that were taken from the pipe of a child. -/
def passedOf (h : Host) (i : Nat) : Bytes := (h.children[i]?).elim [] Child.passed

theorem passedOf_eq (h : Host) (i : Nat) :
    h.passedOf i = ((h.children.map Child.passed)[i]?).getD [] := by
  rw [passedOf, List.getElem?_map]
  cases h.children[i]? <;> rfl

theorem Onward.refl (h : Host) : h.Onward h := fun _ c hc => ⟨c, hc, Child.Onward.refl c⟩

theorem Onward.trans {h₁ h₂ h₃ : Host} (h : h₁.Onward h₂) (k : h₂.Onward h₃) : h₁.Onward h₃ := by
  intro i c hc
  obtain ⟨c', hc', hd⟩ := h i c hc
  obtain ⟨c'', hc'', hd'⟩ := k i c' hc'
  exact ⟨c'', hc'', hd.trans hd'⟩

theorem Onward.of_children (hchildren : h'.children = h.children) : h.Onward h' := by
  intro i c hc
  exact ⟨c, hchildren ▸ hc, Child.Onward.refl c⟩

theorem Later.onward (hl : h.Later h') : h.Onward h' := by
  intro i c hc
  obtain ⟨c', hc', hlc⟩ := hl.child i c hc
  exact ⟨c', hc', hlc.onward⟩

theorem Handled.onward (hh : h.Handled h') : h.Onward h' := by
  intro i c hc
  obtain ⟨c', hc', hd⟩ := exists_getElem?_of_length hh.length hh.child hc
  exact ⟨c', hc', hd.onward⟩

/-- The contents of pipes that are complete do not change. -/
theorem Onward.take_contents (hon : h.Onward h') (hle : n ≤ h.children.length)
    (hn : ∀ (i : Nat) (c : Child), i < n → h.children[i]? = some c → c.writing = false) :
    h'.contents.take n = h.contents.take n := by
  refine List.ext_getElem? fun i => ?_
  rw [List.getElem?_take, List.getElem?_take]
  by_cases hi : i < n
  · have hc := List.getElem?_eq_getElem (Nat.lt_of_lt_of_le hi hle)
    obtain ⟨c', hc', hd⟩ := hon i _ hc
    unfold contents
    rw [if_pos hi, if_pos hi, List.getElem?_map, List.getElem?_map, hc, hc', Option.map_some,
      Option.map_some, hd.written (hn i _ hi hc)]
  · rw [if_neg hi, if_neg hi]

end Host

/-! ### What was taken from a row of pipes -/

section passed

variable {l : List Child} {n : Nat}

/-- If the pipes before a position are empty and nothing was taken from those after it, what was
taken is the contents of the former and a part of the one at the position. -/
theorem flatMap_passed_eq
    (hbefore : ∀ (i : Nat) (c : Child), i < n → l[i]? = some c → c.waiting = [])
    (hafter : ∀ (i : Nat) (c : Child), n < i → l[i]? = some c → c.passed = []) :
    l.flatMap Child.passed =
      ((l.map Child.written).take n).flatten ++ (l[n]?).elim [] Child.passed := by
  induction l generalizing n with
  | nil => simp
  | cons c l ih =>
      cases n with
      | zero =>
          have hrest : l.flatMap Child.passed = [] := by
            rw [List.flatMap_eq_nil_iff]
            intro d hd
            obtain ⟨i, hi⟩ := List.mem_iff_getElem?.1 hd
            exact hafter (i + 1) d (Nat.succ_pos i) hi
          rw [List.flatMap_cons, hrest, List.append_nil]
          rfl
      | succ n =>
          have hwritten : c.written = c.passed := by
            unfold Child.written
            rw [hbefore 0 c (Nat.succ_pos n) rfl, List.append_nil]
          rw [List.flatMap_cons, ih (fun i d hi => hbefore (i + 1) d (Nat.succ_lt_succ hi))
            (fun i d hi => hafter (i + 1) d (Nat.succ_lt_succ hi)), List.map_cons,
            List.take_succ_cons, List.flatten_cons, hwritten, List.append_assoc]
          rfl

theorem flatMap_passed_prefix
    (hbefore : ∀ (i : Nat) (c : Child), i < n → l[i]? = some c → c.waiting = [])
    (hafter : ∀ (i : Nat) (c : Child), n < i → l[i]? = some c → c.passed = []) :
    l.flatMap Child.passed <+: (l.map Child.written).flatten := by
  rw [flatMap_passed_eq hbefore hafter]
  have hsplit := congrArg List.flatten (List.take_append_drop n (l.map Child.written))
  rw [List.flatten_append] at hsplit
  rw [← hsplit, List.prefix_append_right_inj, ← List.map_drop]
  cases hc : l[n]? with
  | none => exact List.nil_prefix
  | some c =>
      have hlt := (List.getElem?_eq_some_iff.1 hc).1
      rw [List.drop_eq_getElem_cons hlt, List.map_cons, List.flatten_cons,
        (List.getElem?_eq_some_iff.1 hc).2]
      unfold Child.written
      rw [List.append_assoc]
      exact List.prefix_append _ _

end passed

namespace Session

variable {s s' : Session}

theorem Sound.waiting_before (h : s.Sound) (i : Nat) (c : Child) (hi : i < s.board.current.toNat)
    (hc : s.host.children[i]? = some c) : c.waiting = [] ∧ c.held = false := by
  have hnn := h.board.current_nonneg
  exact (h.fits i c hc).drained (by omega)

theorem Sound.passed_after (h : s.Sound) (i : Nat) (c : Child) (hi : s.board.current.toNat < i)
    (hc : s.host.children[i]? = some c) : c.passed = [] := by
  have hnn := h.board.current_nonneg
  exact (h.fits i c hc).unread (by omega)

theorem Sound.passedOf_after (h : s.Sound) {i : Nat} (hi : s.board.current.toNat < i) :
    s.host.passedOf i = [] := by
  unfold Host.passedOf
  cases hc : s.host.children[i]? with
  | none => rfl
  | some c => exact h.passed_after i c hi hc

/-- What was taken from the pipes of a sound session. -/
theorem Sound.flatMap_passed (h : s.Sound) : s.host.children.flatMap Child.passed =
    (s.host.contents.take s.board.current.toNat).flatten ++
      s.host.passedOf s.board.current.toNat :=
  flatMap_passed_eq (fun i c hi hc => (h.waiting_before i c hi hc).1) h.passed_after

/-- The pipes before the cursor are complete. -/
theorem Sound.take_contents (h : s.Sound) {host : Host} (hon : s.host.Onward host) :
    host.contents.take s.board.current.toNat = s.host.contents.take s.board.current.toNat := by
  refine hon.take_contents ?_ fun i c hi hc => ?_
  · have hlen := h.length_eq
    have hle := h.board.current_le
    omega
  · exact Child.writing_of_not_held (h.waiting_before i c hi hc).2

theorem onward_launched (s : Session) (command : Command) (echo : Option Bytes) :
    s.host.Onward (s.launched command echo).host := by
  intro i c hc
  obtain ⟨c', hc', hl⟩ := Host.grown_child (h := s.host.opened) s.host.pipes command echo hc
  exact ⟨c', hc', hl.onward⟩

theorem LetGo.onward {c c' : Child} (h : LetGo c c') : c.Onward c' := by
  obtain ⟨d, hl, rfl | rfl⟩ := h
  · exact hl.onward
  · exact hl.onward.trans ⟨id, fun _ => rfl⟩

theorem LetGo.passed {c c' : Child} (h : LetGo c c') : c'.passed = c.passed := by
  obtain ⟨d, hl, rfl | rfl⟩ := h <;> exact hl.passed

theorem Abandoned.onward (h : s.Abandoned s') : s.host.Onward s'.host := by
  intro i c hc
  obtain ⟨c', hc', hd⟩ := exists_getElem?_of_length h.length h.child hc
  exact ⟨c', hc', hd.onward⟩

theorem Abandoned.map_passed (h : s.Abandoned s') :
    s'.host.children.map Child.passed = s.host.children.map Child.passed :=
  h.map_eq fun _ _ hd => hd.passed

/-- So what was taken before is a prefix of the contents after it. -/
theorem Abandoned.prefix_contents (h : s.Abandoned s') (hs : s.Sound) :
    s.host.children.flatMap Child.passed <+: s'.host.contents.flatten := by
  rw [List.flatMap_def, ← h.map_passed, ← List.flatMap_def]
  refine flatMap_passed_prefix (n := s.board.current.toNat) (fun i c' hi hc' => ?_)
    fun i c' hi hc' => ?_
  · obtain ⟨c, hc, hd⟩ := h.child i c' hc'
    obtain ⟨hwaiting, hheld⟩ := hs.waiting_before i c hi hc
    have hwritten := hd.onward.written (Child.writing_of_not_held hheld)
    unfold Child.written at hwritten
    rw [hd.passed, hwaiting] at hwritten
    exact List.append_cancel_left hwritten
  · obtain ⟨c, hc, hd⟩ := h.child i c' hc'
    rw [hd.passed, hs.passed_after i c hi hc]

end Session

/-! ### Runs -/

namespace Run

variable {r r' r₀ : Run} {kind : StepKind} {result : Except Failure Unit}

/-- The second state comes after a step from the first that succeeds. -/
def Next (r r' : Run) : Prop := ∃ kind, r.step = some (kind, .ok (), r')

theorem Steady.onward (h : r.Steady) (hs : r.step = some (kind, result, r')) :
    r.session.host.Onward r'.session.host := by
  cases h.stepping hs with
  | exhausted | refused => exact Host.Onward.refl _
  | noPipe | noChild => exact Host.Onward.of_children rfl
  | launched command => exact r.session.onward_launched command _
  | waited hphase hwait =>
      obtain ⟨-, hhandled, -, -⟩ := h.sound.wait h.announced hphase
      rw [hwait] at hhandled
      exact h.sound.later_polled.onward.trans hhandled.host.onward

/-- Without progress, a step that succeeds keeps the output in order, and one that fails loses at
most the end of a chunk. -/
theorem Steady.step_copied (h : r.Steady) (hprogress : r.session.display.progress = false)
    (hc : r.session.Copied) (hs : r.step = some (kind, result, r')) :
    Session.Yields Session.Copied r.session.CutShort (result, r'.session) := by
  cases h.stepping hs with
  | exhausted => exact hc
  | refused | noPipe | noChild => exact hc.cutShort rfl rfl _
  | launched command => exact hc.launched command _
  | waited hphase hwait =>
      rw [← hwait]
      exact h.sound.wait_copied h.announced hphase hprogress hc

theorem conclude_eq (h : r.session.display.progress = false) : r.conclude =
    (.ok r.session.board.exitCode, r.onSession fun s =>
      s.say (.concluded s.board.finished s.board.started s.board.exitCode)) := by
  have hfinish : r.session.finish = (.ok (), r.session) := by
    unfold Session.finish
    rw [Display.onFinish_eq h, Session.present_nil]
  unfold conclude
  rw [hfinish]
  rfl

theorem output_remove (n : Notifier) (h : Host) : (n.remove h).output = h.output := by
  obtain ⟨descriptors, misused, heq⟩ := n.remove_frame h
  rw [heq]
  rfl

section fresh

variable {c : Config} {limits : Limits} {platform : Platform} {rounds : List (List Event)}
  {handler : Handler} {stream : Bytes}

theorem copied_of_reached (hprogress : c.showsProgress platform.terminal = false)
    (h : Reached (prepare c limits (Host.fresh platform rounds handler) stream) r) :
    r.session.Copied := by
  induction h with
  | start hn =>
      obtain ⟨-, rfl⟩ := Notifier.install_ok hn
      rfl
  | step hr hs ih =>
      obtain ⟨hsteady, hfixed⟩ := steady_of_reached hr
      exact hsteady.step_copied (hfixed.progress.trans hprogress) ih hs

theorem Reached.nexts (h : Reached r₀ r) (hn : Relation.ReflTransGen Next r r') :
    Reached r₀ r' := by
  induction hn with
  | refl => exact h
  | tail _ hnext ih =>
      obtain ⟨kind, hs⟩ := hnext
      exact ih.step hs

theorem onward_nexts
    (h : Reached (prepare c limits (Host.fresh platform rounds handler) stream) r)
    (hn : Relation.ReflTransGen Next r r') : r.session.host.Onward r'.session.host := by
  induction hn with
  | refl => exact Host.Onward.refl _
  | tail hn hnext ih =>
      obtain ⟨kind, hs⟩ := hnext
      obtain ⟨hsteady, -⟩ := steady_of_reached (h.nexts hn)
      exact ih.trans (hsteady.onward hs)

theorem Ends.onward {n : Nat} {outcome : Except Failure Unit} {final : Run}
    (h : Ends r n outcome final)
    (hr : Reached (prepare c limits (Host.fresh platform rounds handler) stream) r) :
    r.session.host.Onward final.session.host := by
  induction h with
  | done => exact Host.Onward.refl _
  | failed hs =>
      obtain ⟨hsteady, -⟩ := steady_of_reached hr
      exact hsteady.onward hs
  | next hs _ ih =>
      obtain ⟨hsteady, -⟩ := steady_of_reached hr
      exact (hsteady.onward hs).trans (ih (hr.step hs))

/-- Pipes that are complete stay as they are until the end of the run. -/
theorem onward_final
    (h : Reached (prepare c limits (Host.fresh platform rounds handler) stream) r) :
    r.session.host.Onward (prepare c limits (Host.fresh platform rounds handler)
      stream).execute.final.session.host := by
  have hends := (ends_steps r).onward h
  have hreached := (ends_steps r).reached h
  obtain ⟨n, host, -, hend⟩ := h.execute
  refine hends.trans ?_
  rcases hend with ⟨e, houtcome, -, hfinal⟩ | ⟨-, -, hfinal⟩
  · rw [hfinal]
    rcases hreached with ⟨hok, -⟩ | ⟨last, kind, e', -, hlast, hs⟩
    · rw [houtcome] at hok
      cases hok
    · obtain ⟨hsteady, -⟩ := steady_of_reached hlast
      exact (hsteady.step hs).sound.abandoned.onward.trans
        (Host.Onward.of_children (n.children_remove _))
  · rw [hfinal]
    exact Host.Onward.of_children (ended_conclude _ n).children

/-- Without progress, a step that fails is cut short, and what follows it writes nothing. -/
theorem cutShort_of_failed (hprogress : c.showsProgress platform.terminal = false) {last : Run}
    {e : Failure} {failed : Run}
    (hr : Reached (prepare c limits (Host.fresh platform rounds handler) stream) last)
    (hs : last.step = some (kind, .error e, failed)) :
    let final := (prepare c limits (Host.fresh platform rounds handler) stream).execute.final
    last.session.CutShort e failed.session ∧
      final.session.host.accepted = failed.session.host.accepted ∧
      final.session.host.writeCalls = failed.session.host.writeCalls ∧
      final.session.host.contents = failed.session.abandon.host.contents := by
  intro final
  obtain ⟨hsteady, hfixed⟩ := steady_of_reached hr
  have habandoned := (hsteady.step hs).sound.abandoned
  have hcut := hsteady.step_copied (hfixed.progress.trans hprogress)
    (copied_of_reached hprogress hr) hs
  obtain ⟨-, wakeup, handler', calls, hfinal⟩ := final_of_failed hr hs
  rw [show final.session = _ from hfinal]
  exact ⟨hcut, habandoned.accepted, habandoned.writeCalls, rfl⟩

/-- Without progress, the output of a run that fails is a prefix of what its jobs have written. -/
theorem prefix_of_error (hprogress : c.showsProgress platform.terminal = false) {e : Failure}
    (herr : (prepare c limits (Host.fresh platform rounds handler) stream).execute.outcome =
      .error e) :
    let final := (prepare c limits (Host.fresh platform rounds handler) stream).execute.final
    final.session.host.output <+: final.session.host.contents.flatten := by
  intro final
  let r₀ := prepare c limits (Host.fresh platform rounds handler) stream
  rcases r₀.execute_cases with ⟨error, host, hn, heq⟩ | ⟨n, host, -, hend⟩
  · obtain ⟨-, rfl⟩ := Notifier.install_error hn
    rw [show final = _ from congrArg Result.final heq]
    exact List.nil_prefix
  rcases hend with ⟨last, kind, e', failed, visits, hr, hs, -⟩ | ⟨done, visits, hr, -, heq⟩
  · obtain ⟨hsteady, -⟩ := steady_of_reached hr
    have hsound := (hsteady.step hs).sound
    obtain ⟨⟨data, lost, -, -, -, hout, -⟩, haccepted, -, hcontents⟩ :=
      cutShort_of_failed hprogress hr hs
    rw [Host.output_congr haccepted, hcontents]
    exact (List.prefix_append _ lost).trans (hout ▸ hsound.abandoned.prefix_contents hsound)
  · obtain ⟨-, hfixed⟩ := steady_of_reached hr
    have hquiet : (done.onHost n.remove).session.display.progress = false :=
      hfixed.progress.trans hprogress
    rw [show (prepare _ _ _ _).execute = _ from heq, conclude_eq hquiet] at herr
    cases herr

/-- Without progress, the output of a run is at any moment what the jobs before the cursor have
written, all of it and in order, followed by what was taken from the job at the cursor.  A step that
fails may lose the end of one chunk, if it is a write that fails; nothing is written after it; and
the output of the run is then a prefix of all that its jobs have written. -/
theorem output_so_far (c : Config) (limits : Limits) (platform : Platform)
    (hprogress : c.showsProgress platform.terminal = false) (rounds : List (List Event))
    (handler : Handler) (stream : Bytes) :
    let r₀ := prepare c limits (Host.fresh platform rounds handler) stream
    let final := r₀.execute.final.session.host
    (∀ r, Reached r₀ r → ∃ n : Nat, r.session.board.current = n ∧
      let h := r.session.host
      h.output = (h.contents.take n).flatten ++ h.passedOf n ∧
      (∀ i, n < i → h.passedOf i = []) ∧
      (∀ r', Relation.ReflTransGen Next r r' →
        r'.session.host.contents.take n = h.contents.take n) ∧
      final.contents.take n = h.contents.take n) ∧
    (∀ last kind e failed, Reached r₀ last → last.step = some (kind, .error e, failed) →
      last.session.CutShort e failed.session ∧
      final.accepted = failed.session.host.accepted ∧
      final.writeCalls = failed.session.host.writeCalls) ∧
    ∀ e, r₀.execute.outcome = .error e → final.output <+: final.contents.flatten := by
  intro r₀ final
  refine ⟨fun r hr => ?_, fun last kind e failed hr hs => ?_, fun e => prefix_of_error hprogress⟩
  · obtain ⟨hsteady, -⟩ := steady_of_reached hr
    have hnn := hsteady.sound.board.current_nonneg
    refine ⟨r.session.board.current.toNat, (Int.toNat_of_nonneg hnn).symm, ?_, ?_, ?_, ?_⟩
    · rw [← hsteady.sound.flatMap_passed]
      exact copied_of_reached hprogress hr
    · intro i hi
      unfold Host.passedOf
      cases hc : r.session.host.children[i]? with
      | none => rfl
      | some child => exact hsteady.sound.passed_after i child hi hc
    · exact fun r' hn => hsteady.sound.take_contents (onward_nexts hr hn)
    · exact hsteady.sound.take_contents (onward_final hr)
  · obtain ⟨hcut, haccepted, hcalls, -⟩ := cutShort_of_failed hprogress hr hs
    exact ⟨hcut, haccepted, hcalls⟩

/-- The second line lacks its terminator while the first job has written its echo. -/
theorem output_so_far_one_running :
    let r₀ := prepare ⟨2, none, false, none, []⟩ ⟨2, 2, by decide, by decide⟩
      (Host.fresh {} [] .default) [0x61, 0x0a, 0x62]
    let final := r₀.execute.final.session.host
    (∃ r, Reached r₀ r ∧ r.session.host.contents = [[0x61, 0x0a]] ∧ r.session.host.output = []) ∧
      r₀.execute.outcome = .error (.badLine .missingNewline [0x62]) ∧
      final.output <+: final.contents.flatten := by
  intro r₀ final
  have hstart : Reached r₀ _ := .start (n := ⟨0, .default, none⟩) rfl
  have hlaunched : Reached r₀ _ := hstart.step (step_of_filling rfl)
  obtain ⟨n, host, -, houtcome, -⟩ := hlaunched.execute_of_failed (step_of_refused rfl rfl)
  have hprefix := (output_so_far ⟨2, none, false, none, []⟩ ⟨2, 2, by decide, by decide⟩ {} rfl []
    .default [0x61, 0x0a, 0x62]).2.2 _ houtcome
  exact ⟨⟨_, hlaunched, rfl, rfl⟩, houtcome, hprefix⟩

end fresh

end Run

end OrderedJobs
