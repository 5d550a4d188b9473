import OrderedJobs.Proofs.Collecting

/-! # Giving up

What is left of a run that gives up in a sound session, wherever it was when it failed
(`Session.Abandoned`).  The output of every job in the ring is closed, and these are all that are
open (`Sound.dropOutputs_eq`).  Then every running child is sent one signal, in the order of their
launch, and nobody else is (`Host.foldl_kill`); by it they end, and so they can be collected, unless
they are lost (`Session.foldl_collectKilled`).  No call of this cleaning up is made on a descriptor
that is not open, so nothing covers up the failure that the run gave up for. -/

namespace OrderedJobs

/-! ### Closing what is open -/

namespace Board

variable {b : Board} {i j : Nat} {job : Job}

theorem Sound.live_of_le (h : b.Sound) (hle : b.current ≤ j) (hlt : (j : Int) < b.next) :
    b.Live j := by
  have hlen : j < b.jobs.length := by
    have := h.next
    omega
  have hjob := List.getElem?_eq_getElem hlen
  refine ⟨_, hjob, fun hboth => ?_⟩
  have := (h.kept j _ hjob).drained.1 hboth.2
  omega

/-- An occupant of the ring whose output is held holds its own child's. -/
theorem Sound.output_of_occupant (h : b.Sound) {s : Nat} {occupant : Option Nat}
    (hs : b.ring[s]? = some occupant)
    (ho : (occupant.bind fun j => (b.jobs[j]?).bind Job.output) = some i) :
    occupant = some i ∧ b.slot i = s ∧ b.current ≤ i ∧ (i : Int) < b.next := by
  obtain ⟨j, rfl, hj⟩ := Option.bind_eq_some_iff.1 ho
  obtain ⟨job, hjob, hout⟩ := Option.bind_eq_some_iff.1 hj
  rw [(h.kept j job hjob).output] at hout
  split at hout
  · cases hout
  · next hle =>
      cases hout
      have hlt := (List.getElem?_eq_some_iff.1 hjob).1
      have := h.next
      exact ⟨rfl, ((h.occupied s _).1 hs).2, by omega, by omega⟩

theorem Sound.mem_openOutputs (h : b.Sound) :
    i ∈ b.openOutputs ↔ b.current ≤ i ∧ (i : Int) < b.next := by
  unfold openOutputs
  rw [List.mem_filterMap]
  constructor
  · rintro ⟨occupant, hmem, ho⟩
    obtain ⟨s, hs⟩ := List.mem_iff_getElem?.1 hmem
    exact (h.output_of_occupant hs ho).2.2
  · rintro ⟨hle, hlt⟩
    have hlive := h.live_of_le hle hlt
    refine ⟨some i, List.mem_of_getElem? ((h.occupied _ i).2 ⟨hlive, rfl⟩), ?_⟩
    obtain ⟨job, hjob, -⟩ := hlive
    rw [Option.bind_some, hjob, Option.bind_some, (h.kept i job hjob).output, if_neg (by omega)]

theorem Sound.nodup_openOutputs (h : b.Sound) : b.openOutputs.Nodup := by
  unfold openOutputs List.Nodup
  rw [List.pairwise_filterMap, List.pairwise_iff_getElem]
  rintro s t hs ht hlt i hi k hk rfl
  obtain ⟨-, hsi, -⟩ := h.output_of_occupant (List.getElem?_eq_getElem hs) hi
  obtain ⟨-, hti, -⟩ := h.output_of_occupant (List.getElem?_eq_getElem ht) hk
  omega

theorem Sound.clearRing_ring (h : b.Sound) :
    b.clearRing.ring = List.replicate b.limits.capacity none := by
  unfold clearRing
  rw [h.slots]

/-- An output that is held is held by an occupant of the ring, so clearing lets go of all. -/
theorem Sound.output_clearRing (h : b.Sound) (hj : b.clearRing.jobs[j]? = some job) :
    job.output = none := by
  unfold clearRing at hj
  dsimp only at hj
  rw [getElem?_foldl_modify (f := fun job : Job => { job with output := none })
    (fun _ => rfl)] at hj
  obtain ⟨old, hold, rfl⟩ := Option.map_eq_some_iff.1 hj
  split
  · rfl
  · next hnot =>
      rw [(h.kept j old hold).output, if_pos]
      have hlt := (List.getElem?_eq_some_iff.1 hold).1
      have hnext := h.next
      rw [← Int.not_le]
      intro hle
      apply hnot
      rw [List.mem_filterMap]
      exact ⟨some j, List.mem_of_getElem? ((h.occupied _ j).2 ⟨h.live_of_le hle (by omega), rfl⟩),
        rfl⟩

theorem nodup_openEnds (b : Board) (o : Holdings) : (b.openEnds o).Nodup := by
  have hmine : (.readEnd o.pipes :: .writeEnd o.pipes ::
      (List.range' (b.current.toNat + 1 + o.pipes)
        (b.next - b.current).toNat).map Descriptor.readEnd).Nodup := by
    rw [List.nodup_cons, List.nodup_cons]
    refine ⟨?_, by simp, List.Pairwise.map _
      (fun i k hne heq => hne (Descriptor.readEnd.inj heq)) List.nodup_range'⟩
    simp only [List.mem_cons, reduceCtorEq, List.mem_map, Descriptor.readEnd.injEq,
      exists_eq_right, List.mem_range'_1, false_or]
    omega
  unfold openEnds
  refine List.nodup_append.2 ⟨o.distinct, hmine, ?_⟩
  rintro d hd _ hmem rfl
  refine o.not_mem ?_ hd
  simp only [List.mem_cons, List.mem_map, List.mem_range'_1] at hmem
  rcases hmem with rfl | rfl | ⟨p, hp, rfl⟩
  · exact Nat.le_refl _
  · exact Nat.le_refl _
  · show o.pipes ≤ p
    omega

end Board

theorem Host.closeOutput_of_mem {h : Host} {i : Nat} {c : Child} (hc : h.children[i]? = some c)
    (hopen : .readEnd c.pipe ∈ h.descriptors) : h.closeOutput i =
      { h with descriptors := h.descriptors.erase (.readEnd c.pipe) } := by
  unfold Host.closeOutput
  rw [hc]
  exact Host.close_eq hopen

/-- Closing some outputs that are open; `m` is the pipe of the first child. -/
theorem Host.foldl_closeOutput (m : Nat) (is : List Nat) (h : Host) (hn : is.Nodup)
    (hd : h.descriptors.Nodup) (hi : ∀ i ∈ is, (∃ c, h.children[i]? = some c ∧ c.pipe = i + m) ∧
      .readEnd (i + m) ∈ h.descriptors) : is.foldl Host.closeOutput h = { h with
        descriptors := h.descriptors.filter (· ∉ is.map fun i => Descriptor.readEnd (i + m)) } := by
  induction is generalizing h with
  | nil =>
      have hall : h.descriptors.filter
          (· ∉ ([] : List Nat).map fun i => Descriptor.readEnd (i + m)) = h.descriptors :=
        List.filter_eq_self.2 (by simp)
      rw [hall]
      rfl
  | cons i is ih =>
      obtain ⟨⟨c, hc, hpipe⟩, hopen⟩ := hi i List.mem_cons_self
      rw [List.nodup_cons] at hn
      rw [List.foldl_cons, Host.closeOutput_of_mem hc (hpipe ▸ hopen), hpipe,
        ih _ hn.2 (hd.erase _)]
      · simp only [hd.erase_eq_filter, List.filter_filter]
        congr 1
        refine List.filter_congr fun d _ => ?_
        by_cases hd : d = .readEnd (i + m) <;> simp [hd]
      · intro k hk
        obtain ⟨hchild, hmem⟩ := hi k (List.mem_cons_of_mem _ hk)
        refine ⟨hchild, (List.mem_erase_of_ne ?_).2 hmem⟩
        intro heq
        have hki : k = i := Nat.add_right_cancel (Descriptor.readEnd.inj heq)
        exact hn.1 (hki ▸ hk)

namespace Session

variable {s s' : Session} {o : Holdings}

/-- Dropping the outputs closes the read ends of the jobs that are not drained, and nothing else. -/
theorem Sound.dropOutputs_eq (h : s.Sound o) : s.dropOutputs = { s with
    host := { s.host with descriptors := o.withNotifier }
    board := s.board.clearRing } := by
  have hnn := h.board.current_nonneg
  have hpipe : ∀ i : Nat, i + 1 + o.pipes = i + (1 + o.pipes) := fun i => Nat.add_assoc i 1 _
  have hclose := Host.foldl_closeOutput (1 + o.pipes) s.board.openOutputs s.host
    h.board.nodup_openOutputs (h.descriptors ▸ s.board.nodup_openEnds o) fun i hi => by
      obtain ⟨hle, hlt⟩ := h.board.mem_openOutputs.1 hi
      obtain ⟨c, hc⟩ := h.child_of_lt hlt
      refine ⟨⟨c, hc, (h.fits i c hc).pipe.trans (hpipe i)⟩, ?_⟩
      rw [h.descriptors, Board.openEnds]
      simp only [List.mem_append, List.mem_cons, List.mem_map, List.mem_range'_1]
      exact .inr (.inr (.inr ⟨i + (1 + o.pipes), by omega, rfl⟩))
  have hrest : (s.board.openEnds o).filter
      (· ∉ s.board.openOutputs.map fun i => Descriptor.readEnd (i + (1 + o.pipes))) =
        o.withNotifier := by
    have hbefore : o.ends.filter (· ∉ s.board.openOutputs.map fun i =>
        Descriptor.readEnd (i + (1 + o.pipes))) = o.ends := by
      refine List.filter_eq_self.2 fun d hd => decide_eq_true fun hmem => ?_
      obtain ⟨i, -, rfl⟩ := List.mem_map.1 hmem
      refine o.not_mem ?_ hd
      show o.pipes ≤ i + (1 + o.pipes)
      omega
    unfold Board.openEnds Holdings.withNotifier
    rw [List.filter_append, hbefore, List.filter_cons_of_pos (by simp; omega),
      List.filter_cons_of_pos (by simp)]
    congr 3
    rw [List.filter_eq_nil_iff]
    intro d hd
    obtain ⟨p, hp, rfl⟩ := List.mem_map.1 hd
    rw [List.mem_range'_1] at hp
    rw [decide_eq_true_eq]
    refine fun hnot => hnot (List.mem_map.2
      ⟨p - (1 + o.pipes), h.board.mem_openOutputs.2 (by omega), ?_⟩)
    rw [Nat.sub_add_cancel (by omega)]
  unfold Session.dropOutputs
  rw [hclose, h.descriptors, hrest]

end Session

/-! ### Ending who runs -/

namespace Host

variable {h h' t : Host} {j signal : Nat} {js ks : List Nat}

/-- Some children were sent a signal each, by which they end unless they are lost. -/
structure Signalled (signal : Nat) (js : List Nat) (h h' : Host) : Prop where
  later : h.Later { h' with kills := h.kills }
  kills : h'.kills = h.kills ++ js.map fun j => (some j, signal)
  ended : ∀ j ∈ js, j ∉ h.platform.faults.lost → ∀ c, h'.children[j]? = some c → c.status ≠ none

theorem Later.withKills (hl : h.Later h') (kills : List (Option Nat × Nat)) :
    ({ h with kills := kills } : Host).Later { h' with kills := kills } where
  own := congrArg (fun x : Host => { x with kills := kills }) hl.own
  length := hl.length
  child := hl.child

theorem signalled_nil (signal : Nat) (h : Host) : Signalled signal [] h h :=
  ⟨Later.refl h, (List.append_nil _).symm, fun _ hj => absurd hj List.not_mem_nil⟩

theorem Signalled.trans (hs : Signalled signal js h t) (ks' : Signalled signal ks t h') :
    Signalled signal (js ++ ks) h h' where
  later := hs.later.trans (ks'.later.withKills h.kills)
  kills := by rw [ks'.kills, hs.kills, List.map_append, List.append_assoc]
  ended := by
    intro j hj hlost c' hc'
    rcases List.mem_append.1 hj with hj | hj
    · obtain ⟨c, hc, hlc⟩ := ks'.later.child_before hc'
      obtain ⟨status, hstatus⟩ := Option.ne_none_iff_exists'.1 (hs.ended j hj hlost c hc)
      rw [hlc.status status hstatus]
      exact Option.some_ne_none status
    · refine ks'.ended j hj ?_ c' hc'
      rwa [show t.platform = h.platform from hs.later.platform]

theorem signalled_kill (hj : h.childOf (pidOf j) = some j) (signal : Nat) :
    Signalled signal [j] h (h.kill (pidOf j) signal) := by
  let sent : Host := { h with kills := h.kills ++ [(some j, signal)] }
  have hkill : h.kill (pidOf j) signal =
      if j ∈ h.platform.faults.lost then sent else sent.occur (.finish j signal false) := by
    unfold kill
    rw [hj]
    rfl
  by_cases hlost : j ∈ h.platform.faults.lost
  · rw [hkill, if_pos hlost]
    refine ⟨Later.refl h, rfl, fun i hi hnot => ?_⟩
    rw [List.mem_singleton.1 hi] at hnot
    exact absurd hlost hnot
  · rw [hkill, if_neg hlost]
    have hlater := sent.later_occur (.finish j signal false)
    refine ⟨hlater.withKills h.kills, hlater.keeps Host.kills fun _ => rfl, fun i hi _ c' hc' => ?_⟩
    rw [List.mem_singleton.1 hi, children_occur] at hc'
    obtain ⟨c, -, rfl⟩ := Option.map_eq_some_iff.1 hc'
    cases hs : c.status <;> simp [Child.undergo, hs]

theorem signalled_foldl_kill (signal : Nat) (js : List Nat) (h : Host)
    (hjs : ∀ j ∈ js, h.childOf (pidOf j) = some j) :
    Signalled signal js h ((js.map pidOf).foldl (fun h pid => h.kill pid signal) h) := by
  induction js generalizing h with
  | nil => exact signalled_nil signal h
  | cons j js ih =>
      have hkill := signalled_kill (hjs j List.mem_cons_self) signal
      refine hkill.trans (ih _ fun k hk => ?_)
      have hlength : (h.kill (pidOf j) signal).children.length = h.children.length :=
        hkill.later.length
      unfold childOf
      rw [hlength]
      exact hjs k (List.mem_cons_of_mem _ hk)

theorem collect_snd (h : Host) (pid : Int) :
    (h.collect pid).2 = h ∨ ∃ j, (h.collect pid).2 = h.handedOut j := by
  unfold collect
  split
  · exact .inl rfl
  · split
    · exact .inl rfl
    · split
      · exact .inl rfl
      · exact .inr ⟨_, rfl⟩

theorem collected_collect {c : Child} (hj : h.childOf (pidOf j) = some j)
    (hc : h.children[j]? = some c) (hs : c.status ≠ none) (hlost : j ∉ h.platform.faults.lost) :
    ((h.collect (pidOf j)).2.children[j]?).any Child.collected = true := by
  obtain ⟨status, hstatus⟩ := Option.ne_none_iff_exists'.1 hs
  cases hcoll : c.collected with
  | true =>
      have hcollect : h.collect (pidOf j) = (.error .noChild, h) := by
        unfold collect
        rw [hj, Option.bind_some, hc, Option.map_some]
        exact if_pos (.inl hcoll)
      rw [hcollect, hc]
      exact hcoll
  | false =>
      rw [collect_ended hj hc hlost hcoll hstatus, children_handedOut, hc]
      simp

end Host

namespace Session

variable {s s' : Session} {o : Holdings}

theorem collectKilled_host (s : Session) (pid : Int) :
    (s.collectKilled pid).host = (s.host.collect pid).2 := by
  unfold collectKilled
  dsimp only
  split
  · next heq => rw [heq]; rfl
  · next heq => rw [heq]

theorem collectKilled_board (s : Session) (pid : Int) :
    (s.collectKilled pid).board = s.board.unregister pid := by
  unfold collectKilled
  dsimp only
  split <;> rfl

theorem collectKilled_display (s : Session) (pid : Int) :
    (s.collectKilled pid).display = s.display := by
  unfold collectKilled
  dsimp only
  split <;> rfl

/-- What was asked for in the end was reaped, though it does not count. -/
theorem reaping_collectKilled (s : Session) (pid : Int) : Reaping s (s.collectKilled pid) := by
  have hhost := s.collectKilled_host pid
  have hboard := s.collectKilled_board pid
  refine ⟨s.collectKilled_display pid, by rw [hboard]; rfl, by rw [hboard]; rfl,
    by rw [hboard]; rfl, by rw [hboard]; rfl, fun k => by rw [hboard]; rfl, fun x hx => ?_, ?_, ?_,
    ?_⟩
  · rw [hboard] at hx
    exact (List.mem_filter.1 hx).1
  all_goals
    rw [hhost]
    rcases s.host.collect_snd pid with heq | ⟨j, heq⟩
  · rw [heq]
  · rw [heq]; rfl
  · rw [heq]
  · rw [heq]; exact List.length_modify ..
  · rw [heq]; exact fun i c hc => ⟨c, hc, .inl rfl⟩
  · rw [heq]
    intro i c' hc'
    rw [Host.children_handedOut] at hc'
    obtain ⟨c, hc, rfl⟩ := Option.map_eq_some_iff.1 hc'
    refine ⟨c, hc, ?_⟩
    by_cases hji : j = i
    · rw [if_pos hji]; exact .inr rfl
    · rw [if_neg hji]; exact .inl rfl

theorem Reaping.collected (h : Reaping s s') {i : Nat}
    (hcoll : (s.host.children[i]?).any Child.collected = true) :
    (s'.host.children[i]?).any Child.collected = true := by
  obtain ⟨c, hc, hcoll⟩ := (Option.any_eq_true ..).1 hcoll
  obtain ⟨c', hc', rfl | rfl⟩ := exists_getElem?_of_length h.length h.child hc
  · rw [hc']
    exact hcoll
  · rw [hc']
    rfl

/-- Of children that have ended, those that are not lost are collected one after the other. -/
theorem foldl_collectKilled (js : List Nat) (s : Session)
    (hjs : ∀ j ∈ js, s.host.childOf (Host.pidOf j) = some j ∧ (j ∉ s.host.platform.faults.lost →
      ∃ c, s.host.children[j]? = some c ∧ c.status ≠ none)) :
    Reaping s ((js.map Host.pidOf).foldl collectKilled s) ∧
      ((js.map Host.pidOf).foldl collectKilled s).board = { s.board with
        running := s.board.running.filter (·.1 ∉ js.map Host.pidOf) } ∧
      ∀ j ∈ js, j ∉ s.host.platform.faults.lost →
        (((js.map Host.pidOf).foldl collectKilled s).host.children[j]?).any
          Child.collected = true := by
  induction js generalizing s with
  | nil =>
      have hall : s.board.running.filter (·.1 ∉ ([] : List Nat).map Host.pidOf) =
        s.board.running := List.filter_eq_self.2 (by simp)
      rw [hall]
      exact ⟨Reaping.refl s, rfl, fun _ hj => absurd hj List.not_mem_nil⟩
  | cons j js ih =>
      have hstep := s.reaping_collectKilled (Host.pidOf j)
      have hplatform : (s.collectKilled (Host.pidOf j)).host.platform = s.host.platform := by
        rw [hstep.host]
      obtain ⟨hreap, hboard, hcollected⟩ := ih (s.collectKilled (Host.pidOf j)) fun k hk => by
        obtain ⟨hpid, hended⟩ := hjs k (List.mem_cons_of_mem _ hk)
        constructor
        · unfold Host.childOf
          rw [hstep.length]
          exact hpid
        · rw [hplatform]
          intro hlost
          obtain ⟨c, hc, hs⟩ := hended hlost
          obtain ⟨c', hc', hor⟩ := exists_getElem?_of_length hstep.length hstep.child hc
          refine ⟨c', hc', ?_⟩
          rcases hor with rfl | rfl <;> exact hs
      rw [List.map_cons, List.foldl_cons]
      refine ⟨hstep.trans hreap, ?_, fun k hk hlost => ?_⟩
      · have hrunning : (s.board.unregister (Host.pidOf j)).running.filter
            (·.1 ∉ js.map Host.pidOf) =
              s.board.running.filter (·.1 ∉ Host.pidOf j :: js.map Host.pidOf) := by
          unfold Board.unregister
          rw [List.filter_filter]
          refine List.filter_congr fun x _ => ?_
          by_cases hx : x.1 = Host.pidOf j <;> simp [hx]
        rw [hboard, s.collectKilled_board, hrunning]
        rfl
      · rcases List.mem_cons.1 hk with rfl | hk
        · obtain ⟨hpid, hended⟩ := hjs _ List.mem_cons_self
          obtain ⟨c, hc, hs⟩ := hended hlost
          apply hreap.collected
          rw [s.collectKilled_host]
          exact Host.collected_collect hpid hc hs hlost
        · exact hcollected k hk (by rwa [hplatform])

/-! ### Giving up -/

/-- What becomes of a child that is given up: something may happen to it, and it may be
collected. -/
def LetGo (c c' : Child) : Prop :=
  ∃ d, c.Later d ∧ (c' = d ∨ c' = { d with collected := true })

/-- What is left of a session that was abandoned. -/
structure Abandoned (s s' : Session) (o : Holdings := {}) : Prop where
  platform : s'.host.platform = s.host.platform
  kills : s'.host.kills = s.host.kills ++
    s.board.running.map fun x => (some x.2, Signal.terminate)
  descriptors : s'.host.descriptors = o.withNotifier
  misused : s'.host.misused = 0
  accepted : s'.host.accepted = s.host.accepted
  writeCalls : s'.host.writeCalls = s.host.writeCalls
  board : s'.board = { s.board.clearRing with running := [] }
  length : s'.host.children.length = s.host.children.length
  child : ∀ (i : Nat) (c' : Child), s'.host.children[i]? = some c' →
    ∃ c, s.host.children[i]? = some c ∧ LetGo c c'
  ended : ∀ (i : Nat) (c' : Child), s'.host.children[i]? = some c' →
    i ∉ s.host.platform.faults.lost → c'.status ≠ none ∧ c'.collected = true

theorem Abandoned.map_eq {β : Type} (h : s.Abandoned s' o) {f : Child → β}
    (hf : ∀ c c', LetGo c c' → f c' = f c) :
    s'.host.children.map f = s.host.children.map f := by
  refine map_eq_of_getElem? h.length fun i c' hc' => ?_
  obtain ⟨c, hc, hd⟩ := h.child i c' hc'
  exact ⟨c, hc, hf c c' hd⟩

/-- A session that gives up, after it has dropped the outputs. -/
def dropped (s : Session) (o : Holdings) : Session :=
  { s with
    host := { s.host with descriptors := o.withNotifier }
    board := s.board.clearRing
    journal := s.journal ++ [.aborting] }

/-- And after it has sent the signals. -/
def terminated (s : Session) (o : Holdings) : Session :=
  { s.dropped o with
    host := (s.board.unreaped.map Host.pidOf).foldl
      (fun h pid => h.kill pid Signal.terminate) (s.dropped o).host }

namespace Sound

theorem map_running (h : s.Sound o) :
    s.board.running.map Prod.fst = s.board.unreaped.map Host.pidOf := by
  rw [h.board.running, List.map_map]
  rfl

theorem abandon_eq (h : s.Sound o) :
    s.abandon = (s.board.unreaped.map Host.pidOf).foldl collectKilled (s.terminated o) := by
  have hdrop : (s.say .aborting).dropOutputs = s.dropOutputs.say .aborting := rfl
  unfold Session.abandon Session.killAll terminated
  rw [hdrop, h.dropOutputs_eq, ← h.map_running]
  rfl

theorem childOf_of_unreaped (h : s.Sound o) {j : Nat} (hj : j ∈ s.board.unreaped) :
    s.host.childOf (Host.pidOf j) = some j := by
  obtain ⟨c, hc, -⟩ := h.child_of_unreaped hj
  have hlt := (List.getElem?_eq_some_iff.1 hc).1
  have hlen := h.length_eq
  exact h.childOf (by omega)

theorem signalled_terminated (h : s.Sound o) :
    Host.Signalled Signal.terminate s.board.unreaped (s.dropped o).host (s.terminated o).host :=
  Host.signalled_foldl_kill _ _ _ fun _ hj => h.childOf_of_unreaped hj

theorem reaping_abandon (h : s.Sound o) : Reaping (s.terminated o) s.abandon ∧
    s.abandon.board = { s.board.clearRing with running := [] } ∧
    ∀ j ∈ s.board.unreaped, j ∉ s.host.platform.faults.lost →
      (s.abandon.host.children[j]?).any Child.collected = true := by
  have hsignalled := h.signalled_terminated
  have hlater := hsignalled.later
  have hplatform : (s.terminated o).host.platform = s.host.platform := hlater.platform
  have hlength : (s.terminated o).host.children.length = s.host.children.length := hlater.length
  obtain ⟨hreap, hboard, hcollected⟩ :=
    foldl_collectKilled s.board.unreaped (s.terminated o) fun j hj => by
      constructor
      · unfold Host.childOf
        rw [hlength]
        exact h.childOf_of_unreaped hj
      · intro hlost
        obtain ⟨c, hc, -⟩ := h.child_of_unreaped hj
        obtain ⟨c', hc', -⟩ := hlater.child j c hc
        exact ⟨c', hc', hsignalled.ended j hj (hplatform ▸ hlost) c' hc'⟩
  have hnone : (s.terminated o).board.running.filter
      (·.1 ∉ s.board.unreaped.map Host.pidOf) = [] := by
    rw [List.filter_eq_nil_iff, ← h.map_running]
    intro x hx hnot
    exact of_decide_eq_true hnot (List.mem_map_of_mem hx)
  rw [← h.abandon_eq] at hreap hboard hcollected
  rw [hnone] at hboard
  exact ⟨hreap, hboard, fun j hj hlost => hcollected j hj (hplatform ▸ hlost)⟩

/-- In the end every child has ended and was collected, unless it is lost. -/
theorem ended_abandon (h : s.Sound o) {i : Nat} {c' : Child}
    (hc' : s.abandon.host.children[i]? = some c') (hlost : i ∉ s.host.platform.faults.lost) :
    c'.status ≠ none ∧ c'.collected = true := by
  have hsignalled := h.signalled_terminated
  obtain ⟨hreap, -, hcollected⟩ := h.reaping_abandon
  obtain ⟨d, hd, hor⟩ := hreap.child i c' hc'
  obtain ⟨c, hc, hlc⟩ := hsignalled.later.child_before hd
  have hstatus : c'.status = d.status := by rcases hor with rfl | rfl <;> rfl
  rw [hstatus]
  cases hcoll : c.collected with
  -- It was collected before, so it had ended by then.
  | true =>
      obtain ⟨status, hs⟩ := Option.ne_none_iff_exists'.1 ((h.fits i c hc).ended hcoll)
      rw [hlc.status status hs]
      refine ⟨Option.some_ne_none status, ?_⟩
      rcases hor with rfl | rfl
      · rw [hlc.collected, hcoll]
      · rfl
  | false =>
      have hj : i ∈ s.board.unreaped := h.unreaped_of_child hc hcoll
      have hany := hcollected i hj hlost
      rw [hc', Option.any_some] at hany
      exact ⟨hsignalled.ended i hj hlost d hd, hany⟩

/-- Giving up on a sound session. -/
theorem abandoned (h : s.Sound o) : s.Abandoned s.abandon o := by
  have hsignalled := h.signalled_terminated
  have hlater := hsignalled.later
  obtain ⟨hreap, hboard, -⟩ := h.reaping_abandon
  constructor
  case platform => rw [hreap.host]; exact hlater.platform
  case kills =>
    rw [hreap.host, h.board.running, List.map_map]
    exact hsignalled.kills
  case descriptors => rw [hreap.host]; exact hlater.descriptors
  case misused => rw [hreap.host]; exact hlater.misused.trans h.misused
  case accepted => rw [hreap.host]; exact hlater.accepted
  case writeCalls => rw [hreap.host]; exact hlater.keeps Host.writeCalls fun _ => rfl
  case board => exact hboard
  case length => exact hreap.length.trans hlater.length
  case child =>
    intro i c' hc'
    obtain ⟨d, hd, hor⟩ := hreap.child i c' hc'
    obtain ⟨c, hc, hlc⟩ := hlater.child_before hd
    exact ⟨c, hc, d, hlc, hor⟩
  case ended => exact fun i c' hc' hlost => h.ended_abandon hc' hlost

end Sound

end Session

end OrderedJobs
