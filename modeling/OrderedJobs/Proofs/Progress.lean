import OrderedJobs.Proofs.Decoration
import OrderedJobs.Proofs.OutputPrefix
import OrderedJobs.Proofs.ValidLines

/-! # Progress notes

In progress mode the output of a run is made of segments that are in order, and that show every job
as it should look (`Session.Decorated`).  Reaping adds a note, draining adds job bytes and what
belongs around them, and the end of the run removes the last note.  The notes that a step adds tell
how many jobs were collected and launched when it was made (`Session.UpToDate`); both numbers only
grow.  So the bytes of the jobs come through as they are, and no line of theirs is ever broken
(`Run.progress_transparent`). -/

namespace OrderedJobs

namespace Session

variable {s s' t : Session} {l m : List Segment} {j : Nat} {c : Child}

/-- The contents of the pipes before the cursor. -/
def done (s : Session) : List Bytes := s.host.contents.take s.board.current.toNat

/-- What was taken from the pipe at the cursor. -/
def now (s : Session) : Bytes := s.host.passedOf s.board.current.toNat

/-- The output is made of segments that show the jobs as far as they have come, and of notes that
were true once. -/
structure Decorated (s : Session) (l : List Segment) : Prop where
  output : s.host.output = l.flatMap Segment.bytes
  shown : Decoration l s.done s.now
  display : s.display = ⟨true, s.now.inLine⟩
  rising : (l.filterMap Segment.note?).Pairwise fun a b => a.1 ≤ b.1 ∧ a.2 ≤ b.2
  bounds : ∀ n ∈ l.filterMap Segment.note?,
    n.1 ≤ n.2 ∧ n.1 ≤ s.board.finished ∧ n.2 ≤ s.board.started

/-- The notes among some segments are true. -/
def UpToDate (s : Session) (m : List Segment) : Prop :=
  ∀ n ∈ m.filterMap Segment.note?, n = (s.board.finished, s.board.started)

/-- After `l`, some more was shown, with true notes. -/
def Shows (s : Session) (l : List Segment) : Prop := ∃ m, s.Decorated (l ++ m) ∧ s.UpToDate m

theorem Decorated.congr (h : s.Decorated l) (haccepted : s'.host.accepted = s.host.accepted)
    (hdone : s'.done = s.done) (hnow : s'.now = s.now) (hdisplay : s'.display = s.display)
    (hfinished : s.board.finished ≤ s'.board.finished)
    (hstarted : s.board.started ≤ s'.board.started) : s'.Decorated l where
  output := (Host.output_congr haccepted).trans h.output
  shown := by
    rw [hdone, hnow]
    exact h.shown
  display := by rw [hdisplay, hnow, h.display]
  rising := h.rising
  bounds := by
    intro n hn
    obtain ⟨hle, hf, hs⟩ := h.bounds n hn
    exact ⟨hle, by omega, by omega⟩

theorem Decorated.shows (h : s.Decorated l) : s.Shows l :=
  ⟨[], by rwa [List.append_nil], fun n hn => absurd hn List.not_mem_nil⟩

/-! ### Writing -/

theorem upToDate_onReaped (s : Session) :
    s.UpToDate (s.display.onReaped s.board.finished s.board.started) := by
  unfold UpToDate Display.onReaped
  split <;> simp [Segment.note?]

theorem upToDate_onData (s : Session) (data : Bytes) :
    s.UpToDate (s.display.onData data s.board.finished s.board.started).1 := by
  unfold UpToDate Display.onData
  cases s.display.progress <;> cases s.display.midLine <;> cases data.endsLine <;>
    simp [Segment.note?]

theorem upToDate_onEnd (s : Session) : s.UpToDate s.display.onEnd.1 := by
  unfold UpToDate Display.onEnd
  cases s.display.progress <;> cases s.display.midLine <;> simp [Segment.note?]

/-- What is presented is added to the segments, if it is presented as a whole. -/
theorem Decorated.present (h : s.Decorated l) (hs : s.Sound) (hm : s.UpToDate m)
    (haccepted : t.host.accepted = s.host.accepted) (hshown : Decoration (l ++ m) t.done t.now)
    (hdisplay : t.display = ⟨true, t.now.inLine⟩) (hfinished : t.board.finished = s.board.finished)
    (hstarted : t.board.started = s.board.started) :
    Yields (fun u => u.Decorated (l ++ m) ∧ u.board = t.board) (fun _ _ => True) (t.present m) := by
  obtain ⟨part, rest, hparts, hout, hok⟩ := t.present_output m
  obtain ⟨accepted, calls, hframe⟩ := t.present_frame m
  generalize t.present m = x at hout hok hframe ⊢
  obtain ⟨e | _, u⟩ := x
  · trivial
  · have hu : u = { t with host := { t.host with accepted := accepted, writeCalls := calls } } :=
      hframe
    subst hu
    rw [hok rfl, List.append_nil] at hparts
    refine ⟨⟨?_, hshown, hdisplay, ?_, ?_⟩, rfl⟩
    · rw [hout, Host.output_congr haccepted, h.output, ← hparts, List.flatMap_append]
    -- The notes of `m` are all the same, and what the notes of `l` tell has been counted since.
    · rw [List.filterMap_append, List.pairwise_append]
      refine ⟨h.rising, List.pairwise_of_forall_mem_list fun a ha b hb => ?_, fun a ha b hb => ?_⟩
      · rw [hm a ha, hm b hb]
        exact ⟨Int.le_refl _, Int.le_refl _⟩
      · rw [hm b hb]
        exact (h.bounds a ha).2
    · intro n hn
      have hcounts := hs.board.finished
      show n.1 ≤ n.2 ∧ n.1 ≤ t.board.finished ∧ n.2 ≤ t.board.started
      rw [hfinished, hstarted]
      rw [List.filterMap_append] at hn
      rcases List.mem_append.1 hn with hn | hn
      · exact h.bounds n hn
      · rw [hm n hn]
        exact ⟨by dsimp only; omega, Int.le_refl _, Int.le_refl _⟩

/-! ### Reaping -/

theorem Sound.counts_reap (h : s.Sound) : s.board.finished ≤ s.reap.2.board.finished ∧
    s.reap.2.board.started = s.board.started := by
  obtain ⟨hsound, hreap, -⟩ := h.reap
  have hnext : s.reap.2.board.next = s.board.next := hreap.next
  have hnodup : s.reap.2.board.running.Nodup := by
    refine List.Pairwise.of_map Prod.fst (fun x y hne heq => ?_) hsound.board.nodup_running
    exact hne (congrArg Prod.fst heq)
  have hlength : s.reap.2.board.running.length ≤ s.board.running.length :=
    hnodup.length_le_of_subset fun x hx => hreap.running x hx
  -- The jobs that are started and do not run are finished, before and after.
  have hbefore := h.board.finished
  have hafter := hsound.board.finished
  have hstarted := h.board.started
  have hstarted' := hsound.board.started
  omega

theorem Decorated.reap (h : s.Decorated l) (hs : s.Sound) : s.reap.2.Decorated l := by
  obtain ⟨-, hreap, -⟩ := hs.reap
  obtain ⟨haccepted, hpassed, hdisplay⟩ := hs.reap_frame
  obtain ⟨hfinished, hstarted⟩ := hs.counts_reap
  have hcurrent : s.reap.2.board.current = s.board.current := hreap.current
  have hcontents : s.reap.2.host.contents = s.host.contents := by
    have hmap := hreap.map_eq (f := Child.written) fun _ => rfl
    rw [hs.takeNotices_eq] at hmap
    exact hmap
  refine h.congr haccepted ?_ ?_ hdisplay hfinished (Int.le_of_eq hstarted.symm)
  · unfold done
    rw [hcontents, hcurrent]
  · unfold now
    rw [Host.passedOf_eq, Host.passedOf_eq, hpassed, hcurrent]

theorem Decorated.noteReaped (h : s.Decorated l) (hs : s.Sound) :
    Yields (fun t => t.Shows l) (fun _ _ => True) s.noteReaped := by
  have hshown := h.shown.onReaped s.board.finished s.board.started
  rw [← h.display] at hshown
  have hpresent := h.present hs s.upToDate_onReaped rfl hshown h.display rfl rfl
  unfold Session.noteReaped
  generalize s.present _ = x at hpresent ⊢
  obtain ⟨e | _, u⟩ := x
  · trivial
  · obtain ⟨hu, hboard⟩ := hpresent
    refine ⟨_, hu, ?_⟩
    unfold UpToDate
    rw [hboard]
    exact s.upToDate_onReaped

theorem Decorated.handleNotices (h : s.Decorated l) (hs : s.Sound) :
    Yields (fun t => t.Shows l) (fun _ _ => True) s.handleNotices := by
  have hreap := h.reap hs
  obtain ⟨hsound, -, -⟩ := hs.reap
  rcases hs.handleNotices_cases with ⟨pid, j, -, -, heq⟩ | heq | heq
  · rw [heq]
    trivial
  · rw [heq]
    exact hreap.shows
  · rw [heq]
    exact hreap.noteReaped hsound

/-! ### Draining -/

theorem now_eq (hj : (j : Int) = s.board.current) (hc : s.host.children[j]? = some c) :
    s.now = c.passed := by
  have hcur : s.board.current.toNat = j := by omega
  unfold now Host.passedOf
  rw [hcur, hc]
  rfl

theorem Sound.now_taken (h : s.Sound) (hj : (j : Int) = s.board.current)
    (hc : s.host.children[j]? = some c) :
    ((s.began j).taken j).done = s.done ∧
      ((s.began j).taken j).now = s.now ++ c.waiting.take chunk := by
  constructor
  · exact h.take_contents (handled_taken (s.began j) j).host.onward
  · have hcur : s.board.current.toNat = j := by omega
    rw [now_eq hj hc]
    show (s.host.taken j chunk).passedOf s.board.current.toNat = _
    unfold Host.passedOf Host.taken
    rw [hcur, Host.children_updateChild, hc]
    simp

theorem Sound.done_closed (h : s.Sound) (hj : (j : Int) = s.board.current)
    (hc : s.host.children[j]? = some c) (hwaiting : c.waiting = []) :
    ((s.began j).closed j).done = s.done ++ [s.now] ∧ ((s.began j).closed j).now = [] := by
  have hcur : s.board.current.toNat = j := by omega
  have hnext : ((s.began j).closed j).board.current.toNat = j + 1 := by
    rw [show ((s.began j).closed j).board.current = s.board.current + 1 from
      Board.settled_current _ _]
    omega
  constructor
  · have hwritten : c.written = c.passed := by
      unfold Child.written
      rw [hwaiting, List.append_nil]
    unfold done
    rw [hnext, hcur, List.take_add_one, now_eq hj hc, ← hwritten]
    congr 1
    show (s.host.contents[j]?).toList = _
    unfold Host.contents
    rw [List.getElem?_map, hc]
    rfl
  · unfold now
    rw [hnext]
    show s.host.passedOf (j + 1) = []
    unfold Host.passedOf
    cases hc' : s.host.children[j + 1]? with
    | none => rfl
    | some c' => exact h.passed_after (j + 1) c' (by omega) hc'

/-- A drain shows what it takes from the pipe, or the end of the job, and counts nothing. -/
theorem Decorated.drain (h : s.Decorated l) (hs : s.Sound) (hj : (j : Int) = s.board.current)
    (hlt : s.board.current < s.board.next) :
    Yields (fun t => ∃ m, t.Decorated (l ++ m) ∧ s.UpToDate m ∧
      t.board.finished = s.board.finished ∧ t.board.started = s.board.started)
      (fun _ _ => True) (s.drain j) := by
  obtain ⟨c, hc⟩ := hs.child_of_lt (j := j) (by omega)
  rcases hs.drain_cases hj hlt hc with ⟨e, heq, -⟩ | ⟨hne, heq⟩ | ⟨hwaiting, -, heq⟩
  · rw [heq]
    trivial
  · let data := c.waiting.take chunk
    have hdata : data ≠ [] := by
      simp only [data, ne_eq, List.take_eq_nil_iff, hne, or_false]
      decide
    let shown := s.display.onData data s.board.finished s.board.started
    let t := { (s.began j).taken j with display := shown.2 }
    have hdone : t.done = s.done := (hs.now_taken hj hc).1
    have hnow : t.now = s.now ++ data := (hs.now_taken hj hc).2
    have hshown : Decoration (l ++ shown.1) t.done t.now ∧
        t.display = Display.mk true t.now.inLine := by
      rw [hdone, hnow]
      simp only [shown, t, h.display]
      exact h.shown.onData hdata _ _
    have hpresent := h.present hs (t := t) (s.upToDate_onData data) rfl hshown.1 hshown.2 rfl rfl
    rw [heq]
    show Yields _ _ (t.present shown.1)
    generalize t.present shown.1 = x at hpresent ⊢
    obtain ⟨e | _, u⟩ := x
    · trivial
    · obtain ⟨hu, hboard⟩ := hpresent
      exact ⟨shown.1, hu, s.upToDate_onData data, by rw [hboard]; rfl, by rw [hboard]; rfl⟩
  · let shown := s.display.onEnd
    let t := { (s.began j).closed j with display := shown.2 }
    have hdone : t.done = s.done ++ [s.now] := (hs.done_closed hj hc hwaiting).1
    have hnow : t.now = [] := (hs.done_closed hj hc hwaiting).2
    have hshown : Decoration (l ++ shown.1) t.done t.now ∧
        t.display = Display.mk true t.now.inLine := by
      rw [hdone, hnow]
      simp only [shown, t, h.display]
      exact h.shown.onEnd
    have hfinished : t.board.finished = s.board.finished := Board.settled_finished _ _
    have hstarted : t.board.started = s.board.started := Board.settled_started _ _
    have hpresent := h.present hs (t := t) s.upToDate_onEnd rfl hshown.1 hshown.2 hfinished hstarted
    rw [heq]
    show Yields _ _ (t.present shown.1)
    generalize t.present shown.1 = x at hpresent ⊢
    obtain ⟨e | _, u⟩ := x
    · trivial
    · obtain ⟨hu, hboard⟩ := hpresent
      exact ⟨shown.1, hu, s.upToDate_onEnd, by rw [hboard, hfinished], by rw [hboard, hstarted]⟩

/-! ### Waiting and launching -/

theorem Decorated.polled (h : s.Decorated l) (hs : s.Sound) : s.polled.Decorated l := by
  have hlater := hs.later_polled
  refine h.congr hlater.accepted (hs.take_contents hlater.onward) ?_ rfl (Int.le_refl _)
    (Int.le_refl _)
  unfold now
  rw [Host.passedOf_eq, Host.passedOf_eq, hlater.map_passed]
  rfl

theorem Decorated.wait (h : s.Decorated l) (hs : s.Sound) (ha : s.host.Announced)
    (hphase : s.board.phase = .waiting) :
    Yields (fun t => t.Shows l) (fun _ _ => True) s.wait := by
  refine hs.wait_yields (P := fun t => t.Shows l) ha hphase (h.polled hs).shows
    (h.polled hs).handleNotices (fun _ ht => ht) ?_
  rintro t j hsound ⟨m, ht, hm⟩ hj hlt -
  have hdrain := ht.drain hsound hj hlt
  generalize t.drain j = x at hdrain ⊢
  obtain ⟨e | _, u⟩ := x
  · trivial
  -- The notes shown before the drain are still true, because a drain counts nothing.
  · obtain ⟨m', hu, hm', hfinished, hstarted⟩ := hdrain
    refine ⟨m ++ m', by rwa [← List.append_assoc], fun n hn => ?_⟩
    rw [hfinished, hstarted]
    rw [List.filterMap_append, List.mem_append] at hn
    exact hn.elim (hm n) (hm' n)

theorem Decorated.launched (h : s.Decorated l) (hs : s.Sound) (command : Command)
    (echo : Option Bytes) : (s.launched command echo).Decorated l := by
  have hstarted : (s.launched command echo).board.started = s.board.started + 1 := rfl
  refine h.congr (accepted_launched s command echo)
    (hs.take_contents (onward_launched s command echo)) ?_ rfl (Int.le_refl _) (by omega)
  unfold now
  rw [Host.passedOf_eq, Host.passedOf_eq, passed_launched]
  show ((s.host.children.map Child.passed ++ [[]])[s.board.current.toNat]?).getD [] = _
  rw [List.getElem?_append]
  split
  · rfl
  · next hge =>
      rw [List.getElem?_eq_none (Nat.not_lt.1 hge)]
      cases s.board.current.toNat - (s.host.children.map Child.passed).length <;> rfl

theorem Sound.counted (h : s.Sound) : s.board.finished = s.host.collections.length ∧
    s.board.started = s.host.children.length := by
  have hexits := congrArg List.length h.ledger.exits
  rw [List.length_map, List.length_map] at hexits
  have hnext := h.board.started
  have hlength := h.length_eq
  rw [h.ledger.finished, hexits]
  exact ⟨rfl, by omega⟩

/-- A true note tells how many jobs were collected and launched. -/
theorem UpToDate.told (hm : s.UpToDate m) (h : s.Sound) {finished started : Int}
    (hmem : .note finished started ∈ m) :
    finished = s.host.collections.length ∧ started = s.host.children.length := by
  obtain ⟨hfinished, hstarted⟩ := h.counted
  have hnote := hm (finished, started) (List.mem_filterMap.2 ⟨_, hmem, rfl⟩)
  rw [hfinished, hstarted] at hnote
  exact Prod.mk.inj hnote

end Session

namespace Run

variable {r r' : Run} {kind : StepKind} {l : List Segment} {visits : List Visit}
  {shown : List (List Segment)}

theorem Steady.step_shows (h : r.Steady) (hd : r.session.Decorated l)
    (hs : r.step = some (kind, .ok (), r')) : r'.session.Shows l := by
  cases h.stepping hs with
  | exhausted =>
      have hexhausted : (exhaust r.session).Decorated l :=
        hd.congr rfl rfl rfl rfl (Int.le_refl _) (Int.le_refl _)
      exact hexhausted.shows
  | launched command => exact (hd.launched h.sound command _).shows
  | waited hphase hwait =>
      have hshows := hd.wait h.sound h.announced hphase
      rw [hwait] at hshows
      exact hshows

/-! ### Runs -/

/-- What was shown during each of some visits, if `l` was shown before. -/
inductive Showed : List Segment → List Visit → List (List Segment) → Prop
  | done {l : List Segment} : Showed l [] []
  | step {l m : List Segment} {v : Visit} {visits : List Visit} {shown : List (List Segment)}
      (hsteady : v.after.Steady) (hd : v.after.session.Decorated (l ++ m))
      (hm : v.after.session.UpToDate m) (h : Showed (l ++ m) visits shown) :
      Showed l (v :: visits) (m :: shown)

theorem Showed.length (h : Showed l visits shown) : shown.length = visits.length := by
  induction h with
  | done => rfl
  | step _ _ _ _ ih => rw [List.length_cons, List.length_cons, ih]

theorem Showed.visit (h : Showed l visits shown) {k : Nat} {v : Visit}
    (hv : visits[k]? = some v) : ∃ m, shown[k]? = some m ∧ v.after.Steady ∧
      v.after.session.Decorated (l ++ (shown.take (k + 1)).flatten) ∧
      v.after.session.UpToDate m := by
  induction h generalizing k with
  | done => cases hv
  | @step l m w visits shown hsteady hd hm _ ih =>
      cases k with
      | zero =>
          cases hv
          exact ⟨m, rfl, hsteady, by simpa using hd, hm⟩
      | succ k =>
          obtain ⟨m', hm', hrest⟩ := ih hv
          refine ⟨m', hm', ?_⟩
          rwa [List.take_succ_cons, List.flatten_cons, ← List.append_assoc]

/-- Steps that all succeed show one thing after the other. -/
theorem showed_steps (r : Run) : ∀ l : List Segment, r.Steady → r.session.Decorated l →
    r.steps.outcome = .ok () → ∃ shown, Showed l r.steps.visits shown ∧
      r.steps.final.session.Decorated (l ++ shown.flatten) := by
  fun_induction steps r with
  | case1 r h =>
      intro l _ hd _
      exact ⟨[], .done, by rwa [List.flatten_nil, List.append_nil]⟩
  | case2 r kind e r' h =>
      intro l _ _ hok
      cases hok
  | case3 r kind r' h t ih =>
      intro l hr hd hok
      obtain ⟨m, hd', hm⟩ := hr.step_shows hd h
      have hr' := (hr.step h).steady rfl
      obtain ⟨shown, hshown, hfinal⟩ := ih (l ++ m) hr' hd' hok
      refine ⟨m :: shown, .step hr' hd' hm hshown, ?_⟩
      rwa [List.flatten_cons, ← List.append_assoc]

/-- When a run is done, all pipes are complete, and nothing is taken from any further one. -/
theorem Steady.done_eq (h : r.Steady) (hdone : r.step = none) :
    r.session.done = r.session.host.contents ∧ r.session.now = [] := by
  obtain ⟨-, -, hcurrent⟩ := done_of_step_none hdone
  have hlength := h.sound.length_eq
  constructor
  · unfold Session.done Host.contents
    rw [List.take_of_length_le]
    rw [List.length_map]
    omega
  · unfold Session.now Host.passedOf
    rw [List.getElem?_eq_none (by omega)]
    rfl

theorem conclude_output {code : Int} (h : r.conclude.1 = .ok code) :
    r.conclude.2.session.host.output =
      r.session.host.output ++ r.session.display.onFinish.flatMap Segment.bytes := by
  obtain ⟨part, rest, hparts, hout, hok⟩ := r.session.present_output r.session.display.onFinish
  unfold conclude at h ⊢
  split at h
  · cases h
  · next s hs =>
      rw [show r.session.present _ = _ from hs] at hout hok
      rw [hparts, hok rfl, List.append_nil]
      exact hout

theorem Steady.conclude_transparent (h : r.Steady) (hdone : r.step = none)
    (hd : r.session.Decorated l) (n : Notifier) {code : Int}
    (hok : (r.onHost n.remove).conclude.1 = .ok code) :
    let host := (r.onHost n.remove).conclude.2.session.host
    host.output = (l ++ [Segment.erase]).flatMap Segment.bytes ∧
      Transparent (l ++ [.erase]) host.contents ∧
      ∀ child ∈ host.children, child.waiting = [] ∧ child.held = false := by
  intro host
  obtain ⟨hcontents, hnow⟩ := h.done_eq hdone
  have hshown := hd.shown
  have hdisplay := hd.display
  rw [hcontents, hnow] at hshown
  rw [hnow] at hdisplay
  have hfinish : r.session.display.onFinish = [.erase] := by
    rw [hdisplay]
    rfl
  have hchildren : host.children = r.session.host.children := (ended_conclude r n).children
  refine ⟨?_, ?_, fun child hmem => ?_⟩
  · rw [show host.output = _ from conclude_output hok]
    show (n.remove r.session.host).output ++ r.session.display.onFinish.flatMap Segment.bytes = _
    rw [output_remove, hd.output, hfinish, List.flatMap_append]
  · unfold Host.contents
    rw [hchildren]
    exact hshown.onFinish
  · rw [hchildren] at hmem
    obtain ⟨i, hi⟩ := List.mem_iff_getElem?.1 hmem
    have hlt := (List.getElem?_eq_some_iff.1 hi).1
    have hlength := h.sound.length_eq
    obtain ⟨-, -, hcurrent⟩ := done_of_step_none hdone
    exact h.sound.waiting_before i child (by omega) hi

section fresh

variable {c : Config} {limits : Limits} {platform : Platform} {rounds : List (List Event)}
  {handler : Handler} {stream : Bytes}

theorem decorated_start (hprogress : c.showsProgress platform.terminal = true) :
    ((prepare c limits (Host.fresh platform rounds handler) stream).onHost
      fun _ => Notifier.installed (Host.fresh platform rounds handler)).session.Decorated [] where
  output := rfl
  shown := .nil
  display := congrArg (fun progress => Display.mk progress false) hprogress
  rising := List.Pairwise.nil
  bounds := fun _ hn => absurd hn List.not_mem_nil

/-- In progress mode, a run that returns has shown one thing after the other until it was done. -/
theorem showed_execute (hprogress : c.showsProgress platform.terminal = true) {code : Int}
    (hok : (prepare c limits (Host.fresh platform rounds handler) stream).execute.outcome =
      .ok code) :
    let r₀ := prepare c limits (Host.fresh platform rounds handler) stream
    ∃ (shown : List (List Segment)) (done : Run) (n : Notifier),
      Showed [] r₀.execute.visits shown ∧ done.Steady ∧ done.step = none ∧
      done.session.Decorated shown.flatten ∧
      (done.onHost n.remove).conclude = (.ok code, r₀.execute.final) := by
  intro r₀
  rcases r₀.execute_cases with ⟨e, host, -, heq⟩ | ⟨n, host, hinstall, -⟩
  · rw [show r₀.execute.outcome = _ from congrArg Result.outcome heq] at hok
    cases hok
  have hstart : Reached r₀ _ := .start hinstall
  have hdecorated : (r₀.onHost fun _ => host).session.Decorated [] := by
    obtain ⟨-, rfl⟩ := Notifier.install_ok hinstall
    exact decorated_start hprogress
  obtain ⟨n', host', -, ⟨e, -, herr, -⟩ | ⟨hsteps, houtcome, hfinal⟩⟩ := hstart.execute
  · rw [show r₀.execute.outcome = _ from hok] at herr
    cases herr
  obtain ⟨hsteady, -⟩ := steady_of_reached hstart
  obtain ⟨shown, hshown, hlast⟩ :=
    showed_steps (r₀.onHost fun _ => host) [] hsteady hdecorated hsteps
  rw [← visits_execute hinstall] at hshown
  rcases (ends_steps _).reached hstart with ⟨-, hr, hdone⟩ | ⟨_, _, e, herr, -, -⟩
  · obtain ⟨hsteady, -⟩ := steady_of_reached hr
    exact ⟨shown, _, n', hshown, hsteady, hdone, hlast,
      Prod.ext (houtcome.symm.trans hok) hfinal.symm⟩
  · rw [hsteps] at herr
    cases herr

/-- In progress mode, the output of a run that returns is made of segments that were shown step by
step.  They show the contents of all pipes, which are complete, in the order of the launches, with
fillers, notes and erasures that disturb no line (`Transparent`); and the notes shown in a step tell
how many jobs were collected and launched by then, two numbers of which the first is at most the
second and that never fall. -/
theorem progress_transparent (c : Config) (limits : Limits) (platform : Platform)
    (hprogress : c.showsProgress platform.terminal = true) (rounds : List (List Event))
    (handler : Handler) (stream : Bytes) :
    let r₀ := prepare c limits (Host.fresh platform rounds handler) stream
    let final := r₀.execute.final.session.host
    ∀ code, r₀.execute.outcome = .ok code → ∃ shown : List (List Segment),
      let segments := shown.flatten ++ [.erase]
      final.output = segments.flatMap Segment.bytes ∧
      Transparent segments final.contents ∧
      (∀ child ∈ final.children, child.waiting = [] ∧ child.held = false) ∧
      shown.length = r₀.execute.visits.length ∧
      (∀ (k : Nat) (visit : Visit), r₀.execute.visits[k]? = some visit →
        ∃ m, shown[k]? = some m ∧
          visit.after.session.host.output =
            (shown.take (k + 1)).flatten.flatMap Segment.bytes ∧
          ∀ f s : Int, .note f s ∈ m → f = visit.after.session.host.collections.length ∧
            s = visit.after.session.host.children.length) ∧
      (segments.filterMap Segment.note?).Pairwise (fun a b => a.1 ≤ b.1 ∧ a.2 ≤ b.2) ∧
      ∀ f s : Int, .note f s ∈ segments → f ≤ s := by
  intro r₀ final code hok
  obtain ⟨shown, done, n, hshown, hsteady, hdone, hd, heq⟩ := showed_execute hprogress hok
  obtain ⟨hout, htransparent, hcomplete⟩ :=
    hsteady.conclude_transparent hdone hd n (congrArg Prod.fst heq)
  rw [heq] at hout htransparent hcomplete
  refine ⟨shown, hout, htransparent, hcomplete, hshown.length, fun k visit hvisit => ?_, ?_, ?_⟩
  · obtain ⟨m, hm, hsteady, hd, hnotes⟩ := hshown.visit hvisit
    exact ⟨m, hm, hd.output, fun f s hmem => hnotes.told hsteady.sound hmem⟩
  · rw [List.filterMap_append]
    exact (List.append_nil _).symm ▸ hd.rising
  · intro f s hmem
    rcases List.mem_append.1 hmem with hmem | hmem
    · exact (hd.bounds (f, s) (List.mem_filterMap.2 ⟨_, hmem, rfl⟩)).1
    · cases List.mem_singleton.1 hmem

/-- The first job stops in the middle of a line, when the second has ended already. -/
theorem progress_transparent_two_lines :
    let r₀ := prepare ⟨2, none, false, some true, []⟩ ⟨2, 2, by decide, by decide⟩
      (Host.fresh {} [[.data 1 [0x79], .finish 1 9 false], [.data 0 [0x78]]] .default)
      (Source.ofLines [[0x61], [0x62]])
    ∃ code segments, r₀.execute.outcome = .ok code ∧
      r₀.execute.final.session.host.output = segments.flatMap Segment.bytes ∧
      Transparent segments r₀.execute.final.session.host.contents ∧
      ∀ f s : Int, .note f s ∈ segments → f ≤ s := by
  intro r₀
  have hvalid : ∀ text ∈ [[0x61], [0x62]], Line.Valid [] text := by decide
  obtain ⟨code, hok⟩ : ∃ code, r₀.execute.outcome = .ok code :=
    returns_of_spared hvalid ⟨rfl, rfl, rfl, rfl, rfl⟩
  obtain ⟨shown, hout, htransparent, -, -, -, -, hnotes⟩ := progress_transparent
    ⟨2, none, false, some true, []⟩ ⟨2, 2, by decide, by decide⟩ {} rfl
    [[.data 1 [0x79], .finish 1 9 false], [.data 0 [0x78]]] .default
    (Source.ofLines [[0x61], [0x62]]) code hok
  exact ⟨code, _, hok, hout, htransparent, hnotes⟩

end fresh

end Run

end OrderedJobs
