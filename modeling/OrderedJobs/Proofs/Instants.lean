import OrderedJobs.Proofs.PlainCalls

/-! # Instants of a run

What is known of the moments at which a run makes its calls.  Every call is made while the notifier
is set up, in a step from a state that the run reaches, or at the end (`Run.occurs_of_mem`).  In a
step that waits, all calls are plain and each is made in a sound session (`Sound.waits`); in a step
that launches, at most the two ends of a new pipe are open besides, and at most one child is new
(`Sound.launching`). -/

namespace OrderedJobs

variable {o : Holdings} {e : Entry}

/-! ### While a run waits -/

/-- A call of a wait: it is plain, and made in a sound session. -/
structure Entry.Waits (e : Entry) (o : Holdings) : Prop where
  plain : e.place = .wait ∧ e.call.plain = true
  sound : e.session.Sound o

namespace Session

variable {s : Session} {command : Command} {echo : Option Bytes} {j : Nat}

theorem Sound.waits_present (h : s.Sound o) (segments : List Segment)
    (he : e ∈ s.presentCalls .wait segments) : e.Waits o := by
  obtain ⟨hplace, hplain, accepted, calls, hsession⟩ := mem_writeCalls he
  refine ⟨⟨hplace, hplain⟩, ?_⟩
  rw [hsession]
  exact h.congr_host rfl rfl rfl rfl rfl

/-- The calls of a reaping, by induction on the children that it asks for. -/
theorem Sound.waits_reapEach (l : List (Int × Nat)) (h : s.Sound o)
    (hl : ∀ x ∈ l, x ∈ s.board.running) (hn : (l.map Prod.fst).Nodup)
    (he : e ∈ reapEachCalls l s) : e.Waits o := by
  induction l generalizing s with
  | nil => cases he
  | cons x rest ih =>
      obtain ⟨pid, j⟩ := x
      obtain ⟨rfl, hj⟩ := h.board.mem_running.1 (hl _ List.mem_cons_self)
      rw [List.map_cons, List.nodup_cons] at hn
      have hrest : ∀ x ∈ rest, x ∈ s.board.running := fun x hx => hl x (List.mem_cons_of_mem _ hx)
      unfold reapEachCalls at he
      rcases List.mem_cons.1 he with rfl | he
      · exact ⟨⟨rfl, rfl⟩, h⟩
      obtain ⟨c, hc, ⟨-, hcollect⟩ | ⟨-, hcollect⟩ | ⟨status, hs, hcollect⟩⟩ := h.collect_cases hj
      all_goals rw [hcollect] at he
      · cases he
      · exact ih h hrest hn.2 he
      · dsimp only at he
        rw [accountExit_eq h.board hj status] at he
        exact ih (h.exited hj hc hs) (fun x hx => mem_running_exited (hrest x hx)
          fun heq => hn.1 (List.mem_map.2 ⟨x, hx, heq⟩)) hn.2 he

theorem Sound.waits_notices (h : s.Sound o) (he : e ∈ s.noticesCalls) : e.Waits o := by
  unfold noticesCalls at he
  rcases List.mem_append.1 he with he | he
  · rcases List.mem_cons.1 he with rfl | he
    · exact ⟨⟨rfl, rfl⟩, h⟩
    · exact h.takeNotices.waits_reapEach _ (fun _ => id) h.board.nodup_running he
  · obtain ⟨hsound, -, -⟩ := h.reap
    split at he
    · next heq =>
        rw [heq] at hsound
        exact hsound.waits_present _ he
    · cases he

theorem Sound.waits_endOutput {job : Job} {c : Child} (h : s.Sound o)
    (hj : (j : Int) = s.board.current) (hlt : s.board.current < s.board.next)
    (hc : s.host.children[j]? = some c) (hwait : c.waiting = []) (hheld : c.held = false)
    (hindex : job.index = j) (he : e ∈ s.endOutputCalls j job j) : e.Waits o := by
  unfold endOutputCalls at he
  dsimp only at he
  rw [hindex, h.retireIf_eq hj hlt] at he
  rcases List.mem_append.1 he with he | he
  · unfold closeOutputCalls at he
    rw [hc] at he
    rw [List.mem_singleton.1 he]
    exact ⟨⟨rfl, rfl⟩, h⟩
  · exact ((h.closed hj hlt hc hwait hheld).withDisplay _).waits_present _ he

theorem Sound.waits_drain (h : s.Sound o) (hj : (j : Int) = s.board.current)
    (hlt : s.board.current < s.board.next) (he : e ∈ s.drainCalls j) : e.Waits o := by
  have hbegan := h.began hj
  obtain ⟨c, hc⟩ := h.child_of_lt (j := j) (by omega)
  obtain ⟨job, hjob, hout, hindex⟩ := h.job_at_cursor hj hlt
  unfold drainCalls at he
  rw [hjob] at he
  dsimp only at he
  rw [hout] at he
  dsimp only at he
  rw [hindex, if_neg (fun hne => hne hj)] at he
  rcases List.mem_cons.1 he with rfl | he
  · exact ⟨⟨rfl, rfl⟩, hbegan⟩
  rcases h.read_cases hj hlt hc with ⟨e, hr, -⟩ | ⟨b, rest, hwait, hr⟩ | ⟨hwait, hheld, hr⟩
  · rw [hr] at he
    cases he
  · rw [hr, hwait] at he
    exact ((hbegan.taken hj).withDisplay _).waits_present _ he
  · rw [hr] at he
    exact hbegan.waits_endOutput hj hlt hc hwait hheld hindex he

theorem Sound.waits_handle (h : s.Sound o) (ready : Readiness)
    (he : e ∈ s.handleCalls s.board.active ready) : e.Waits o := by
  unfold handleCalls at he
  rcases List.mem_append.1 he with he | he
  · split at he
    · exact h.waits_notices he
    · cases he
  have hfirst : (if ready.notices then s.handleNotices else (.ok (), s)).2.Sound o ∧
      (if ready.notices then s.handleNotices else (.ok (), s)).2.board.current =
        s.board.current ∧
      (if ready.notices then s.handleNotices else (.ok (), s)).2.board.next = s.board.next := by
    cases ready.notices with
    | false => exact ⟨h, rfl, rfl⟩
    | true =>
        obtain ⟨hsound, hhandled, -, hcurrent, -⟩ := h.handleNotices
        exact ⟨hsound, hcurrent, hhandled.next⟩
  generalize (if ready.notices then s.handleNotices else (.ok (), s)) = first at hfirst he
  obtain ⟨_ | _, t⟩ := first
  · cases he
  obtain ⟨hsound, hcurrent, hnext⟩ := hfirst
  dsimp only at he hsound hcurrent hnext
  by_cases hlt : s.board.current < s.board.next
  · rw [h.board.active_eq hlt] at he
    dsimp only at he
    split at he
    · have hnn := h.board.current_nonneg
      exact hsound.waits_drain (by omega) (by omega) he
    · cases he
  · have hle := h.board.current_le
    rw [Board.active_eq_none (by omega)] at he
    cases he

theorem Sound.waits (h : s.Sound o) (he : e ∈ s.waitCalls) : e.Waits o := by
  unfold waitCalls at he
  rcases List.mem_cons.1 he with rfl | he
  · exact ⟨⟨rfl, rfl⟩, h⟩
  dsimp only at he
  split at he
  · exact h.polled.waits_handle _ he
  · cases he

end Session

/-! ### While a run launches -/

namespace Host

variable {h : Host}

/-- What a host may have become within a launch: ends of one more pipe may be open, and there may be
one more child. -/
structure Launching (h h' : Host) : Prop where
  descriptors : ∃ more : List Descriptor,
    more.Sublist [.readEnd h.pipes, .writeEnd h.pipes] ∧ h'.descriptors = h.descriptors ++ more
  wakeup : h'.wakeup = h.wakeup
  uncollected : h'.uncollected = h.uncollected ∨
    h'.uncollected = h.uncollected ++ [h.children.length]

theorem uncollected_grown (h : Host) (pipe : Nat) (command : Command) (echo : Option Bytes) :
    (h.grown pipe command echo).uncollected = h.uncollected ++ [h.children.length] := by
  have hnew : h.children.length < (h.grown pipe command echo).children.length := by
    rw [length_grown]
    exact Nat.lt_succ_self _
  unfold uncollected
  rw [length_grown, List.range_succ, List.filter_append]
  congr 1
  · refine List.filter_congr fun i hi => ?_
    have hget := List.getElem?_eq_getElem (List.mem_range.1 hi)
    obtain ⟨c', hc', hl⟩ := grown_child pipe command echo hget
    rw [hc', hget, Option.any_some, Option.any_some, hl.collected]
  · have hget := List.getElem?_eq_getElem hnew
    rcases grown_cases hget with ⟨c, hc, -⟩ | ⟨-, hl⟩
    · have := (List.getElem?_eq_some_iff.1 hc).1
      omega
    · have hcoll : ((h.grown pipe command echo).children[h.children.length]).collected = false :=
        hl.collected
      rw [List.filter_singleton, hget, Option.any_some, hcoll]
      rfl

end Host

theorem Session.Sound.launching {s : Session} {command : Command} {echo : Option Bytes}
    (h : s.Sound o) (hp : s.host.pipes = s.host.children.length + 1 + o.pipes)
    (he : e ∈ s.launchCalls command echo) : e.place = .launch ∧ s.host.Launching e.host := by
  obtain ⟨hread, -⟩ := h.end_not_mem hp
  unfold launchCalls spawnCalls at he
  rcases List.mem_cons.1 he with rfl | he
  · exact ⟨rfl, ⟨[], List.nil_sublist _, (List.append_nil _).symm⟩, rfl, .inl rfl⟩
  cases hpipe : s.host.platform.faults.pipe.error? s.host.pipeCalls with
  | some e =>
      rw [Host.makePipe_error hpipe] at he
      cases he
  | none =>
      rw [Host.makePipe_ok hpipe] at he
      rcases List.mem_cons.1 he with rfl | he
      · exact ⟨rfl, ⟨_, List.Sublist.refl _, rfl⟩, rfl, .inl rfl⟩
      cases hfork : s.host.platform.faults.fork.error? s.host.forkCalls with
      | some e =>
          rw [Host.fork_error (h := s.host.opened) hfork] at he
          rcases List.mem_cons.1 he with rfl | he
          · exact ⟨rfl, ⟨_, List.Sublist.refl _, rfl⟩, rfl, .inl rfl⟩
          · rw [List.mem_singleton.1 he]
            have hclose := s.host.close_readEnd_opened (s.host.opened.forkCalls + 1) hread
            refine ⟨rfl, ?_⟩
            show s.host.Launching (Host.close _ _)
            rw [hclose]
            exact ⟨⟨_, List.sublist_cons_self _ _, rfl⟩, rfl, .inl rfl⟩
      | none =>
          rw [Host.fork_ok (h := s.host.opened) hfork, List.mem_singleton] at he
          rw [he]
          refine ⟨rfl, ⟨_, List.Sublist.refl _, ?_⟩, ?_, .inr ?_⟩
          · exact Host.grown_keeps (h := s.host.opened) Host.descriptors (fun _ => rfl) rfl
          · exact Host.grown_keeps (h := s.host.opened) Host.wakeup (fun _ => rfl) rfl
          · exact s.host.opened.uncollected_grown _ _ _

/-! ### Before the steps and after them -/

/-- What is true of a call that changes nothing but signals, descriptors and the output: the board
is as it was, the children are, and no descriptor is open that was not. -/
structure Entry.Closing (e : Entry) (s : Session) : Prop where
  board : e.session.board = s.board
  children : e.host.children = s.host.children
  descriptors : e.host.descriptors.Sublist s.host.descriptors

namespace Notifier

variable {n : Notifier} {p : Place} {s : Session}

/-- Until the notifier is set up, at most its pipe is made. -/
theorem mem_setUpCalls (he : e ∈ setUpCalls s) :
    e.place = .setUp ∧ e.session.board = s.board ∧ (e.host = s.host ∨ e.host = s.host.opened) := by
  unfold setUpCalls at he
  rcases List.mem_cons.1 he with rfl | he
  · exact ⟨rfl, rfl, .inl rfl⟩
  cases hpipe : s.host.platform.faults.pipe.error? s.host.pipeCalls with
  | some e =>
      rw [Host.makePipe_error hpipe] at he
      cases he
  | none =>
      rw [Host.makePipe_ok hpipe, List.mem_singleton] at he
      rw [he]
      exact ⟨rfl, rfl, .inr rfl⟩

theorem descriptors_remove (n : Notifier) (h : Host) :
    (n.remove h).descriptors.Sublist h.descriptors := by
  have hread := (n.restored h).shrinks_close (.readEnd n.pipe)
  have hwrite := ((n.restored h).close (.readEnd n.pipe)).shrinks_close (.writeEnd n.pipe)
  exact (hread.trans hwrite).descriptors

theorem closing_tearDown (he : e ∈ n.tearDownCalls p s) : e.place = p ∧ e.Closing s := by
  unfold tearDownCalls at he
  simp only [List.mem_cons, List.not_mem_nil, or_false] at he
  rcases he with rfl | rfl | rfl
  · exact ⟨rfl, rfl, rfl, List.Sublist.refl _⟩
  · exact ⟨rfl, rfl, rfl, List.Sublist.refl _⟩
  · have hclose := (n.restored s.host).shrinks_close (.readEnd n.pipe)
    obtain ⟨descriptors, misused, hframe⟩ := (n.restored s.host).close_frame (.readEnd n.pipe)
    have hchildren := congrArg Host.children hframe
    exact ⟨rfl, rfl, hchildren, hclose.descriptors⟩

end Notifier

/-! ### The occasions of a call -/

namespace Run

variable {r r₀ : Run}

/-- When a run makes a call: while it sets the notifier up, in a step from a state that it reaches,
after a step that failed, or when it was done. -/
inductive Occurs (r₀ : Run) (e : Entry) : Prop
  | setUp (he : e ∈ Notifier.setUpCalls r₀.session)
  | step {r : Run} (hr : Reached r₀ r) (he : e ∈ r.stepCalls)
  | cleanUp {r failed : Run} {kind : StepKind} {error : Failure} {n : Notifier} {host : Host}
      (hn : Notifier.install r₀.session.host = (.ok n, host)) (hr : Reached r₀ r)
      (hs : r.step = some (kind, .error error, failed))
      (he : e ∈ failed.session.abandonCalls ++
        n.tearDownCalls .cleanUp failed.session.abandon)
  | windUp {r : Run} {n : Notifier} {host : Host}
      (hn : Notifier.install r₀.session.host = (.ok n, host)) (hr : Reached r₀ r)
      (hdone : r.step = none)
      (he : e ∈ n.tearDownCalls .windUp r.session ++
        (r.onHost n.remove).session.presentCalls .windUp r.session.display.onFinish)

/-- The last writes of a run, after its notifier was removed. -/
theorem closing_conclude {n : Notifier} (he : e ∈ (r.onHost n.remove).session.presentCalls .windUp
    r.session.display.onFinish) : e.place = .windUp ∧ e.Closing r.session := by
  obtain ⟨hplace, -, accepted, calls, hsession⟩ := Session.mem_writeCalls he
  refine ⟨hplace, ?_, ?_, ?_⟩
  · rw [hsession]
    rfl
  · rw [Entry.host, hsession]
    exact n.children_remove _
  · rw [Entry.host, hsession]
    exact n.descriptors_remove _

theorem Reached.of_mem_stepsCalls (hr : Reached r₀ r) (he : e ∈ r.stepsCalls) :
    ∃ r', Reached r₀ r' ∧ e ∈ r'.stepCalls := by
  fun_induction stepsCalls r with
  | case1 r h => cases he
  | case2 r kind error failed h => exact ⟨r, hr, he⟩
  | case3 r kind r' h ih =>
      rcases List.mem_append.1 he with he | he
      · exact ⟨r, hr, he⟩
      · exact ih (hr.step h) he

/-- There is no other occasion for a call. -/
theorem occurs_of_mem (he : e ∈ r₀.calls) : Occurs r₀ e := by
  unfold calls at he
  rcases List.mem_append.1 he with he | he
  · exact .setUp he
  split at he
  · cases he
  next n host hn =>
  have hstart : Reached r₀ _ := .start hn
  rcases List.mem_append.1 he with he | he
  · obtain ⟨r, hr, he⟩ := hstart.of_mem_stepsCalls he
    exact .step hr he
  have hends := ends_steps (r₀.onHost fun _ => host)
  unfold endCalls at he
  dsimp only at he
  rcases hends.reached hstart with ⟨hok, hr, hdone⟩ | ⟨last, kind, error, herr, hr, hs⟩
  · rw [hok] at he
    exact .windUp hn hr hdone he
  · rw [herr] at he
    exact .cleanUp hn hr hs he

theorem mem_stepsCalls (he : e ∈ r.stepCalls) : e ∈ r.stepsCalls := by
  rw [stepsCalls]
  split
  · next heq =>
      unfold stepCalls at he
      rw [phase_of_step_none heq] at he
      cases he
  · exact he
  · exact List.mem_append_left _ he

theorem Reached.subset_calls (hr : Reached r₀ r) : r.stepsCalls ⊆ r₀.calls := by
  induction hr with
  | @start n host hn =>
      intro e he
      unfold calls
      rw [hn]
      exact List.mem_append_right _ (List.mem_append_left _ he)
  | @step r r' kind hr hs ih =>
      intro e he
      apply ih
      rw [stepsCalls_of_next hs]
      exact List.mem_append_right _ he

theorem Reached.mem_calls (hr : Reached r₀ r) (he : e ∈ r.stepCalls) : e ∈ r₀.calls :=
  hr.subset_calls (mem_stepsCalls he)

end Run

end OrderedJobs
