import OrderedJobs.Proofs.BoardProgress
import OrderedJobs.Proofs.Happening
import OrderedJobs.Session.Launch
import OrderedJobs.Session.Wait

/-! # Sound sessions

What links the board of a run to its host, between any two calls that the run makes and until it is
abandoned (`Session.Sound`).  The children are the jobs; a job is reaped if its child's status was
collected, and drained once its child's pipe is empty and closed; no byte was read from the pipes
behind the cursor.  The descriptors held open are those that the process held before (`Holdings`),
the two ends of the wakeup pipe, and the read ends of the pipes from the cursor on.  The journal and
the counters agree with the collections (`Session.Ledger`).

Soundness survives whatever happens outside (`Sound.later`), all writing (`Sound.present`), and a
launch (`Sound.launched`). -/

namespace OrderedJobs

/-- The exits that were accounted for, each with its status, in order. -/
def Journal.exits (j : Journal) : List (Int × WaitStatus) :=
  j.filterMap fun
    | .reaped _ pid status _ => some (pid, status)
    | _ => none

theorem Journal.exits_append (j k : Journal) : Journal.exits (j ++ k) = j.exits ++ k.exits :=
  List.filterMap_append

/-- The pipe that a descriptor is an end of. -/
def Descriptor.pipe : Descriptor → Nat
  | readEnd p | writeEnd p => p

/-- What a process holds before a run: the pipes it has made, and the ends of them that are still
open.  By default it holds nothing. -/
structure Holdings where
  pipes : Nat := 0
  ends : List Descriptor := []
  distinct : ends.Nodup := by decide
  made : ∀ d ∈ ends, d.pipe < pipes := by decide

variable {o : Holdings}

theorem Holdings.not_mem (o : Holdings) {d : Descriptor} (hd : o.pipes ≤ d.pipe) : d ∉ o.ends :=
  fun hmem => absurd (o.made d hmem) (Nat.not_lt.2 hd)

/-- Those ends, and the two of the notifier's pipe. -/
def Holdings.withNotifier (o : Holdings) : List Descriptor :=
  o.ends ++ [.readEnd o.pipes, .writeEnd o.pipes]

/-- What the board of a run knows of its `i`-th child. -/
structure Board.Fits (b : Board) (i : Nat) (c : Child) (o : Holdings := {}) : Prop where
  pipe : c.pipe = i + 1 + o.pipes
  reaped : (b.jobs[i]?).map Job.reaped = some c.collected
  ended : c.collected = true → c.status ≠ none
  drained : (i : Int) < b.current → c.waiting = [] ∧ c.held = false
  unread : b.current < i → c.passed = []

/-- The pipe ends that are open during a run: those held before, those of its notifier, and one for
each job that is not drained. -/
def Board.openEnds (b : Board) (o : Holdings := {}) : List Descriptor :=
  o.ends ++ .readEnd o.pipes :: .writeEnd o.pipes ::
    (List.range' (b.current.toNat + 1 + o.pipes) (b.next - b.current).toNat).map .readEnd

theorem Board.Fits.later {b : Board} {i : Nat} {c c' : Child} (h : b.Fits i c o)
    (hl : c.Later c') : b.Fits i c' o where
  pipe := hl.pipe.trans h.pipe
  reaped := by rw [hl.collected]; exact h.reaped
  ended := by
    rw [hl.collected]
    intro hcoll
    obtain ⟨st, hst⟩ := Option.ne_none_iff_exists'.1 (h.ended hcoll)
    rw [hl.status st hst]
    exact Option.some_ne_none st
  drained := by
    intro hlt
    obtain ⟨hwait, hheld⟩ := h.drained hlt
    obtain ⟨more, hmore, hnil⟩ := hl.waiting
    rw [hnil (Child.writing_of_not_held hheld), hwait] at hmore
    refine ⟨hmore, ?_⟩
    rw [← Bool.not_eq_true]
    intro htrue
    rw [hl.held htrue] at hheld
    cases hheld
  unread := by rw [hl.passed]; exact h.unread

namespace Host

variable {h h' : Host}

/-- The statuses that were handed out are those of the collected children, and each was handed out
once. -/
structure HandedOnce (h : Host) : Prop where
  nodup : h.collections.Nodup
  mem : ∀ i, i ∈ h.collections ↔ (h.children[i]?).any Child.collected = true

theorem HandedOnce.congr (ho : h.HandedOnce) (hcoll : h'.collections = h.collections)
    (hmem : ∀ i : Nat, (h'.children[i]?).any Child.collected =
      (h.children[i]?).any Child.collected) : h'.HandedOnce where
  nodup := hcoll ▸ ho.nodup
  mem := by
    intro i
    rw [hcoll, hmem]
    exact ho.mem i

theorem Later.any_collected (hl : h.Later h') (i : Nat) :
    (h'.children[i]?).any Child.collected = (h.children[i]?).any Child.collected := by
  cases hc : h.children[i]? with
  | none => rw [getElem?_eq_none_of_length hl.length.symm hc]
  | some c =>
      obtain ⟨c', hc', hlc⟩ := hl.child i c hc
      rw [hc', Option.any_some, Option.any_some, hlc.collected]

end Host

namespace Session

/-- Every status that was collected has been accounted for, once and in the order of
collection. -/
structure Ledger (s : Session) : Prop extends Host.HandedOnce s.host where
  exits : s.journal.exits.map (fun e => (e.1, some e.2)) =
    s.host.collections.map fun i => (Host.pidOf i, (s.host.children[i]?).bind Child.status)
  exitCode : s.board.exitCode = (s.journal.exits.map Prod.snd).foldl WaitStatus.fold 0
  finished : s.board.finished = s.journal.exits.length

/-- What holds of a session between two calls. -/
structure Sound (s : Session) (o : Holdings := {}) : Prop where
  board : s.board.Sound
  children : s.host.children.length = s.board.jobs.length
  fits : ∀ (i : Nat) (c : Child), s.host.children[i]? = some c → s.board.Fits i c o
  descriptors : s.host.descriptors = s.board.openEnds o
  misused : s.host.misused = 0
  wakeup : s.host.wakeup = some (.writeEnd o.pipes)
  ledger : s.Ledger

variable {s s' : Session}

/-- A ledger depends on the collections, on the accounts, and on the children collected. -/
theorem Ledger.congr (h : s.Ledger) (hcoll : s'.host.collections = s.host.collections)
    (hexits : s'.journal.exits = s.journal.exits) (hcode : s'.board.exitCode = s.board.exitCode)
    (hfinished : s'.board.finished = s.board.finished)
    (hmem : ∀ i : Nat, (s'.host.children[i]?).any Child.collected =
      (s.host.children[i]?).any Child.collected)
    (hstatus : ∀ i ∈ s.host.collections, (s'.host.children[i]?).bind Child.status =
      (s.host.children[i]?).bind Child.status) : s'.Ledger where
  toHandedOnce := h.toHandedOnce.congr hcoll hmem
  exits := by
    rw [hexits, hcoll, h.exits]
    refine List.map_congr_left fun i hi => ?_
    rw [hstatus i hi]
  exitCode := by rw [hcode, hexits, h.exitCode]
  finished := by rw [hfinished, hexits, h.finished]

/-- The rest of the host does not matter. -/
theorem Sound.congr_host (h : s.Sound o) {host : Host} (hchildren : host.children = s.host.children)
    (hdescriptors : host.descriptors = s.host.descriptors)
    (hmisused : host.misused = s.host.misused) (hwakeup : host.wakeup = s.host.wakeup)
    (hcoll : host.collections = s.host.collections) : ({ s with host } : Session).Sound o where
  board := h.board
  children := by rw [← h.children, ← hchildren]
  fits := by rw [show host.children = _ from hchildren]; exact h.fits
  descriptors := hdescriptors.trans h.descriptors
  misused := hmisused.trans h.misused
  wakeup := hwakeup.trans h.wakeup
  ledger := h.ledger.congr hcoll rfl rfl rfl (fun i => by rw [hchildren])
    fun i _ => by rw [hchildren]

/-! ### Looking at a sound session -/

theorem Sound.length_eq (h : s.Sound o) : (s.host.children.length : Int) = s.board.next := by
  rw [h.children, h.board.next]

theorem Sound.child_of_lt (h : s.Sound o) {j : Nat} (hj : (j : Int) < s.board.next) :
    ∃ c, s.host.children[j]? = some c := by
  have hlt : j < s.host.children.length := by
    have := h.length_eq
    omega
  exact ⟨_, List.getElem?_eq_getElem hlt⟩

theorem Sound.child_of_unreaped (h : s.Sound o) {j : Nat} (hj : j ∈ s.board.unreaped) :
    ∃ c, s.host.children[j]? = some c ∧ c.collected = false := by
  obtain ⟨job, hjob, hr⟩ := Board.mem_unreaped.1 hj
  have hlt : j < s.host.children.length := h.children ▸ (List.getElem?_eq_some_iff.1 hjob).1
  refine ⟨_, List.getElem?_eq_getElem hlt, ?_⟩
  have := (h.fits j _ (List.getElem?_eq_getElem hlt)).reaped
  rw [hjob, Option.map_some, hr] at this
  exact (Option.some.inj this).symm

/-- The children not collected are those that run by the board. -/
theorem Sound.unreaped_of_child (h : s.Sound o) {j : Nat} {c : Child}
    (hc : s.host.children[j]? = some c) (hcoll : c.collected = false) : j ∈ s.board.unreaped := by
  have := (h.fits j c hc).reaped
  rw [hcoll] at this
  obtain ⟨job, hjob, hr⟩ := Option.map_eq_some_iff.1 this
  exact Board.mem_unreaped.2 ⟨job, hjob, hr⟩

theorem Sound.childOf (h : s.Sound o) {j : Nat} (hj : (j : Int) < s.board.next) :
    s.host.childOf (Host.pidOf j) = some j := by
  have hlen := h.length_eq
  unfold Host.childOf Host.pidOf
  have hnat : ((1000 : Int) + j - 1000).toNat = j := by omega
  rw [hnat, if_pos ⟨by omega, by omega⟩]

theorem Sound.readEnd_mem (h : s.Sound o) {j : Nat} (hj : (j : Int) = s.board.current)
    (hlt : s.board.current < s.board.next) :
    .readEnd (j + 1 + o.pipes) ∈ s.host.descriptors := by
  rw [h.descriptors, Board.openEnds]
  refine List.mem_append_right _ (List.mem_cons_of_mem _ (List.mem_cons_of_mem _ ?_))
  refine List.mem_map.2 ⟨j + 1 + o.pipes, ?_, rfl⟩
  rw [List.mem_range'_1]
  omega

/-- No write end of a child's pipe is open in the parent. -/
theorem Sound.writeEnd_not_mem (h : s.Sound o) (p : Nat) :
    .writeEnd (p + 1 + o.pipes) ∉ s.host.descriptors := by
  have hbefore : .writeEnd (p + 1 + o.pipes) ∉ o.ends :=
    o.not_mem (show o.pipes ≤ p + 1 + o.pipes by omega)
  rw [h.descriptors, Board.openEnds]
  simp [hbefore]

theorem Sound.atEnd_eq (h : s.Sound o) {j : Nat} {c : Child} (hc : s.host.children[j]? = some c) :
    s.host.atEnd c = !c.held := by
  have hnot : s.host.descriptors.contains (.writeEnd c.pipe) = false := by
    rw [(h.fits j c hc).pipe, ← Bool.not_eq_true, List.contains_iff_mem]
    exact h.writeEnd_not_mem j
  unfold Host.atEnd
  rw [hnot, Bool.not_false, Bool.and_true]

theorem Sound.awaited_eq (h : s.Sound o) (hlt : s.board.current < s.board.next) :
    s.awaited = some s.board.current.toNat := by
  have hnn := h.board.current_nonneg
  have hlen : s.board.current.toNat < s.board.jobs.length := by
    have := h.board.next
    omega
  have hjob := List.getElem?_eq_getElem hlen
  unfold awaited
  rw [h.board.active_eq hlt, Option.bind_some, hjob, Option.bind_some,
    (h.board.kept _ _ hjob).output, if_neg (by omega)]

theorem awaited_eq_none (h : s.board.current = s.board.next) : s.awaited = none := by
  unfold awaited
  rw [Board.active_eq_none h]
  rfl

theorem Sound.useNotices_eq (h : s.Sound o) : s.host.useNotices = s.host := by
  have hmem : .readEnd o.pipes ∈ s.host.descriptors := by
    rw [h.descriptors, Board.openEnds]
    exact List.mem_append_right _ List.mem_cons_self
  unfold Host.useNotices Host.touch
  rw [h.wakeup]
  exact if_pos hmem

theorem Sound.watch_eq (h : s.Sound o) : s.host.watch s.awaited = s.host := by
  have hle := h.board.current_le
  by_cases heq : s.board.current = s.board.next
  · unfold Host.watch
    rw [awaited_eq_none heq]
    exact h.useNotices_eq
  · have hlt : s.board.current < s.board.next := by omega
    have hnn := h.board.current_nonneg
    obtain ⟨c, hc⟩ := h.child_of_lt (j := s.board.current.toNat) (by omega)
    unfold Host.watch
    rw [h.awaited_eq hlt]
    show s.host.useNotices.useOutput _ = s.host
    rw [h.useNotices_eq]
    unfold Host.useOutput Host.touch
    rw [hc]
    show (if .readEnd c.pipe ∈ s.host.descriptors then s.host else _) = s.host
    rw [(h.fits _ c hc).pipe]
    exact if_pos (h.readEnd_mem (by omega) hlt)

/-! ### What happens outside, and writing -/

theorem Ledger.later (h : s.Ledger)
    (hfits : ∀ i c, s.host.children[i]? = some c → s.board.Fits i c o) {host : Host}
    (hl : s.host.Later host) : ({ s with host } : Session).Ledger := by
  refine h.congr hl.collections rfl rfl rfl hl.any_collected fun i hi => ?_
  have hany := (h.mem i).1 hi
  obtain ⟨c, hc, hcoll⟩ := (Option.any_eq_true ..).1 hany
  obtain ⟨st, hst⟩ := Option.ne_none_iff_exists'.1 ((hfits i c hc).ended hcoll)
  obtain ⟨c', hc', hlc⟩ := hl.child i c hc
  show (host.children[i]?).bind Child.status = _
  rw [hc, hc', Option.bind_some, Option.bind_some, hst, hlc.status st hst]

/-- Soundness survives whatever happens outside. -/
theorem Sound.later (h : s.Sound o) {host : Host} (hl : s.host.Later host) :
    ({ s with host } : Session).Sound o where
  board := h.board
  children := hl.length.trans h.children
  fits := by
    intro i c' hc'
    obtain ⟨c, hc, hlc⟩ := hl.child_before hc'
    exact (h.fits i c hc).later hlc
  descriptors := hl.descriptors.trans h.descriptors
  misused := hl.misused.trans h.misused
  wakeup := hl.wakeup.trans h.wakeup
  ledger := h.ledger.later h.fits hl

theorem retireIf_of_true {condition : Job → Bool} {j : Nat} {job : Job} {b : Board}
    (hj : s.board.jobs[j]? = some job) (hcond : condition job = true)
    (hr : s.board.retire j = .ok b) :
    s.retireIf condition j = (.ok (), { s with board := b }) := by
  unfold retireIf
  rw [if_pos (by rw [hj]; exact hcond), hr]

theorem retireIf_of_false {condition : Job → Bool} {j : Nat} {job : Job}
    (hj : s.board.jobs[j]? = some job) (hcond : condition job = false) :
    s.retireIf condition j = (.ok (), s) := by
  unfold retireIf
  rw [if_neg]
  rw [hj, Option.any_some, hcond]
  decide

/-- Writing changes nothing but what the output accepted. -/
theorem present_frame (s : Session) (segments : List Segment) :
    ∃ accepted calls, (s.present segments).2 =
      { s with host := { s.host with accepted := accepted, writeCalls := calls } } := by
  obtain ⟨accepted, calls, hw⟩ := Host.writeAll_frame (segments.flatMap Segment.bytes) s.host
  refine ⟨accepted, calls, ?_⟩
  unfold present
  split
  all_goals
    next heq =>
    rw [heq] at hw
    dsimp only at hw
    rw [hw]

theorem board_present (s : Session) (segments : List Segment) :
    (s.present segments).2.board = s.board := by
  obtain ⟨accepted, calls, heq⟩ := s.present_frame segments
  rw [heq]

theorem present_result (s : Session) (segments : List Segment) :
    (s.present segments).1 = .ok () ∨ ∃ e, (s.present segments).1 = .error (.system .write e) := by
  unfold present
  split
  · next e h heq => exact .inr ⟨e, rfl⟩
  · exact .inl rfl

theorem Sound.present (h : s.Sound o) (segments : List Segment) :
    (s.present segments).2.Sound o := by
  obtain ⟨accepted, calls, heq⟩ := s.present_frame segments
  rw [heq]
  exact h.congr_host rfl rfl rfl rfl rfl

end Session

/-! ### Launching -/

/-- A job that has just been launched is kept on the board as its child has it. -/
theorem Board.Counts.kept_launched {b : Board} (h : b.Counts) (command : Command) :
    (({ index := b.next, command } : Job).runBy b.jobs.length).Kept b.current b.jobs.length := by
  have hnext := h.next
  have hle := h.current_le
  refine ⟨hnext, rfl, ?_, ?_⟩
  · show false = true ↔ _
    constructor
    · intro hf; cases hf
    · intro hlt; omega
  · rw [if_neg (by omega)]
    rfl

namespace Host

variable (h : Host)

/-- The host with one more pipe, both ends of it open. -/
def opened : Host :=
  { h with
    pipeCalls := h.pipeCalls + 1
    pipes := h.pipes + 1
    descriptors := h.descriptors ++ [.readEnd h.pipes, .writeEnd h.pipes] }

/-- The host with one more child, which has run up to its command. -/
def withChild (pipe : Nat) (command : Command) (echo : Option Bytes) : Host :=
  let c := h.newChild pipe command echo
  let h' := { h with forkCalls := h.forkCalls + 1, children := h.children ++ [c] }
  let h' := if c.status.isSome then h'.notify 1 else h'
  { h' with deferred := h.deferred.filter (·.child? != some h.children.length) }

/-- The host with one more child, to which the events that were kept for it have happened. -/
def grown (pipe : Nat) (command : Command) (echo : Option Bytes) : Host :=
  (h.deferred.filter (·.child? == some h.children.length)).foldl occur
    (h.withChild pipe command echo)

variable {h} {pipe : Nat} {command : Command} {echo : Option Bytes}

theorem makePipe_error {e : OsError} (he : h.platform.faults.pipe.error? h.pipeCalls = some e) :
    h.makePipe = (.error e, { h with pipeCalls := h.pipeCalls + 1 }) := by
  unfold makePipe
  dsimp only
  rw [he]

theorem makePipe_ok (he : h.platform.faults.pipe.error? h.pipeCalls = none) :
    h.makePipe = (.ok h.pipes, h.opened) := by
  unfold makePipe
  dsimp only
  rw [he]
  rfl

theorem fork_error {e : OsError} (he : h.platform.faults.fork.error? h.forkCalls = some e) :
    h.fork pipe command echo = (.error e, { h with forkCalls := h.forkCalls + 1 }) := by
  unfold fork
  dsimp only
  rw [he]

theorem fork_ok (he : h.platform.faults.fork.error? h.forkCalls = none) :
    h.fork pipe command echo = (.ok h.children.length, h.grown pipe command echo) := by
  unfold fork
  dsimp only
  rw [he]
  rfl

theorem close_eq {d : Descriptor} (hd : d ∈ h.descriptors) :
    h.close d = { h with descriptors := h.descriptors.erase d } := if_pos hd

theorem close_frame (h : Host) (d : Descriptor) : ∃ descriptors misused,
    h.close d = { h with descriptors := descriptors, misused := misused } := by
  unfold close
  split
  · exact ⟨_, _, rfl⟩
  · exact ⟨_, _, rfl⟩

theorem children_withChild :
    (h.withChild pipe command echo).children = h.children ++ [h.newChild pipe command echo] := by
  unfold withChild
  dsimp only
  split
  · exact children_notify _ _
  · rfl

theorem own_withChild : (h.withChild pipe command echo).own =
    ({ h with forkCalls := h.forkCalls + 1 } : Host).own := by
  unfold withChild
  dsimp only
  split
  · exact own_notify { h with
      forkCalls := h.forkCalls + 1
      children := h.children ++ [h.newChild pipe command echo] } 1
  · rfl

theorem later_grown : (h.withChild pipe command echo).Later (h.grown pipe command echo) :=
  later_foldl_occur _ _

theorem grown_cases {i : Nat} {c' : Child}
    (hc' : (h.grown pipe command echo).children[i]? = some c') :
    (∃ c, h.children[i]? = some c ∧ c.Later c') ∨
      i = h.children.length ∧ (h.newChild pipe command echo).Later c' := by
  obtain ⟨c, hc, hl⟩ := later_grown.child_before hc'
  rw [children_withChild] at hc
  rcases getElem?_concat_cases hc with hc | ⟨rfl, rfl⟩
  · exact .inl ⟨c, hc, hl⟩
  · exact .inr ⟨rfl, hl⟩

theorem grown_child (pipe : Nat) (command : Command) (echo : Option Bytes) {i : Nat} {c : Child}
    (hc : h.children[i]? = some c) :
    ∃ c', (h.grown pipe command echo).children[i]? = some c' ∧ c.Later c' := by
  apply later_grown.child i c
  rw [children_withChild, List.getElem?_append_left (List.getElem?_eq_some_iff.1 hc).1, hc]

theorem length_grown : (h.grown pipe command echo).children.length = h.children.length + 1 := by
  rw [later_grown.length, children_withChild, List.length_append, List.length_singleton]

theorem grown_keeps {α : Type} (f : Host → α) (hf : ∀ h : Host, f h.own = f h)
    (hfork : f { h with forkCalls := h.forkCalls + 1 } = f h) :
    f (h.grown pipe command echo) = f h := by
  rw [later_grown.keeps f hf, ← hf, own_withChild, hf, hfork]

/-- Closing the read end of the new pipe leaves its write end. -/
theorem close_readEnd_opened (h : Host) (forkCalls : Nat)
    (hread : .readEnd h.pipes ∉ h.descriptors) :
    ({ h.opened with forkCalls } : Host).close (.readEnd h.pipes) =
      { h.opened with forkCalls, descriptors := h.descriptors ++ [.writeEnd h.pipes] } := by
  rw [close_eq (by simp [opened])]
  simp only [opened]
  rw [List.erase_append_right _ hread, List.erase_cons_head]

/-- Closing both ends of the new pipe undoes its opening. -/
theorem close_opened (h : Host) (forkCalls : Nat) (hread : .readEnd h.pipes ∉ h.descriptors)
    (hwrite : .writeEnd h.pipes ∉ h.descriptors) :
    (({ h.opened with forkCalls } : Host).close (.readEnd h.pipes)).close (.writeEnd h.pipes) =
      { h with pipeCalls := h.pipeCalls + 1, pipes := h.pipes + 1, forkCalls } := by
  rw [h.close_readEnd_opened forkCalls hread, close_eq (by simp)]
  simp only [opened]
  rw [List.erase_append_right _ hwrite, List.erase_cons_head, List.append_nil]

/-- A spawn fails for want of a pipe or of a process, and then no descriptor stays open; or there is
one more child, and the read end of its pipe is open. -/
theorem spawn_cases (h : Host) (job : Job) (echo : Option Bytes)
    (hread : .readEnd h.pipes ∉ h.descriptors) (hwrite : .writeEnd h.pipes ∉ h.descriptors) :
    (∃ e, h.platform.faults.pipe.error? h.pipeCalls = some e ∧
      h.spawn job echo = (.error (.system .pipe e), { h with pipeCalls := h.pipeCalls + 1 })) ∨
    (∃ e, h.platform.faults.fork.error? h.forkCalls = some e ∧
      h.spawn job echo = (.error (.system .fork e), { h with
        pipeCalls := h.pipeCalls + 1, pipes := h.pipes + 1, forkCalls := h.forkCalls + 1 })) ∨
    h.spawn job echo = (.ok (job.runBy h.children.length),
      { h.opened.grown h.pipes job.command echo with
        descriptors := h.descriptors ++ [.readEnd h.pipes] }) := by
  unfold spawn
  cases hp : h.platform.faults.pipe.error? h.pipeCalls with
  | some e =>
      left
      rw [makePipe_error hp]
      exact ⟨e, rfl, rfl⟩
  | none =>
      right
      rw [makePipe_ok hp]
      dsimp only
      cases hf : h.platform.faults.fork.error? h.forkCalls with
      | some e =>
          left
          rw [fork_error (h := h.opened) hf]
          exact ⟨e, rfl, Prod.ext rfl (h.close_opened _ hread hwrite)⟩
      | none =>
          right
          rw [fork_ok (h := h.opened) hf]
          dsimp only
          have hd : (h.opened.grown h.pipes job.command echo).descriptors =
              h.descriptors ++ [.readEnd h.pipes, .writeEnd h.pipes] :=
            grown_keeps Host.descriptors (fun _ => rfl) rfl
          rw [close_eq (by rw [hd]; simp), hd, List.erase_append_right _ hwrite,
            List.erase_cons_tail (by simp), List.erase_cons_head]
          rfl

end Host

namespace Session

variable {s : Session} {command : Command} {echo : Option Bytes}

/-- The session after a launch. -/
def launched (s : Session) (command : Command) (echo : Option Bytes) : Session :=
  let child := s.host.children.length
  let job := ({ index := s.board.next, command } : Job).runBy child
  let host := { s.host.opened.grown s.host.pipes command echo with
    descriptors := s.host.descriptors ++ [.readEnd s.host.pipes] }
  { s with
    host
    board := s.board.enroll job (Host.pidOf child)
    journal := s.journal ++ launchRecords host job child s.host.pipes }

theorem Sound.end_not_mem (h : s.Sound o)
    (hp : s.host.pipes = s.host.children.length + 1 + o.pipes) :
    .readEnd s.host.pipes ∉ s.host.descriptors ∧ .writeEnd s.host.pipes ∉ s.host.descriptors := by
  have hlen := h.length_eq
  have hnn := h.board.current_nonneg
  have hbefore : .readEnd s.host.pipes ∉ o.ends :=
    o.not_mem (show o.pipes ≤ s.host.pipes by omega)
  refine ⟨?_, hp ▸ h.writeEnd_not_mem _⟩
  rw [h.descriptors, Board.openEnds]
  intro hmem
  simp only [List.mem_append, hbefore, List.mem_cons, Descriptor.readEnd.injEq, reduceCtorEq,
    false_or, List.mem_map, exists_eq_right, List.mem_range'_1] at hmem
  omega

/-- A launch fails for want of a pipe or of a process, or there is one more job. -/
theorem Sound.launch_cases (h : s.Sound o)
    (hp : s.host.pipes = s.host.children.length + 1 + o.pipes) (command : Command)
    (echo : Option Bytes) :
    (∃ e, s.host.platform.faults.pipe.error? s.host.pipeCalls = some e ∧
      s.launch command echo = (.error (.system .pipe e), { s with
        host := { s.host with pipeCalls := s.host.pipeCalls + 1 } })) ∨
    (∃ e, s.host.platform.faults.fork.error? s.host.forkCalls = some e ∧
      s.launch command echo = (.error (.system .fork e), { s with
        host := { s.host with
          pipeCalls := s.host.pipeCalls + 1
          pipes := s.host.pipes + 1
          forkCalls := s.host.forkCalls + 1 } })) ∨
    s.launch command echo = (.ok (), s.launched command echo) := by
  obtain ⟨hread, hwrite⟩ := h.end_not_mem hp
  unfold Session.launch
  rcases s.host.spawn_cases { index := s.board.next, command } echo hread hwrite with
    ⟨e, he, hs⟩ | ⟨e, he, hs⟩ | hs
  · rw [hs]
    exact .inl ⟨e, he, rfl⟩
  · rw [hs]
    exact .inr (.inl ⟨e, he, rfl⟩)
  · rw [hs]
    exact .inr (.inr rfl)

theorem exits_launchRecords (h : Host) (job : Job) (child pipe : Nat) :
    Journal.exits (launchRecords h job child pipe) = [] := by
  unfold launchRecords
  dsimp only
  split <;> rfl

theorem openEnds_enroll (h : s.Sound o) (job : Job) (pid : Int) :
    (s.board.enroll job pid).openEnds o =
      s.board.openEnds o ++ [.readEnd (s.host.children.length + 1 + o.pipes)] := by
  have hlen := h.length_eq
  have hnn := h.board.current_nonneg
  have hle := h.board.current_le
  have hcount : (s.board.next + 1 - s.board.current).toNat =
      (s.board.next - s.board.current).toNat + 1 := by omega
  have hlast : s.board.current.toNat + 1 + o.pipes + (s.board.next - s.board.current).toNat =
      s.host.children.length + 1 + o.pipes := by omega
  show o.ends ++ .readEnd o.pipes :: .writeEnd o.pipes ::
    (List.range' (s.board.current.toNat + 1 + o.pipes)
      (s.board.next + 1 - s.board.current).toNat).map Descriptor.readEnd = _
  rw [hcount, List.range'_1_concat, hlast, List.map_append, Board.openEnds, List.append_assoc]
  rfl

theorem Sound.fits_launched (h : s.Sound o)
    (hp : s.host.pipes = s.host.children.length + 1 + o.pipes) {i : Nat} {c' : Child}
    (hc' : (s.launched command echo).host.children[i]? = some c') :
    (s.launched command echo).board.Fits i c' o := by
  have hlen := h.length_eq
  have hle := h.board.current_le
  have hjobs : (s.launched command echo).board.jobs = s.board.jobs ++
      [({ index := s.board.next, command } : Job).runBy s.host.children.length] := rfl
  rcases Host.grown_cases (h := s.host.opened) hc' with ⟨c, hc, hl⟩ | ⟨hi, hl⟩
  · have hfits := (h.fits i c hc).later hl
    refine ⟨hfits.pipe, ?_, hfits.ended, hfits.drained, hfits.unread⟩
    have hlt : i < s.board.jobs.length := h.children ▸ (List.getElem?_eq_some_iff.1 hc).1
    rw [hjobs, List.getElem?_append_left hlt]
    exact hfits.reaped
  · have hi : i = s.host.children.length := hi
    have hcoll : c'.collected = false := hl.collected
    refine ⟨hl.pipe.trans ?_, ?_, ?_, ?_, fun _ => hl.passed⟩
    · rw [hi]
      exact hp
    · rw [hjobs, hi, h.children, List.getElem?_concat_length, hcoll]
      rfl
    · rw [hcoll]
      intro hf
      cases hf
    · intro hlt
      have hlt : (i : Int) < s.board.current := hlt
      omega

theorem Sound.ledger_launched (h : s.Sound o) : (s.launched command echo).Ledger := by
  have hexits : (s.launched command echo).journal.exits = s.journal.exits := by
    show Journal.exits (s.journal ++ _) = _
    rw [Journal.exits_append, exits_launchRecords, List.append_nil]
  have hmem : ∀ i : Nat, ((s.launched command echo).host.children[i]?).any Child.collected =
      (s.host.children[i]?).any Child.collected := by
    intro i
    cases hc : s.host.children[i]? with
    | some c =>
        obtain ⟨c', hc', hl⟩ := Host.grown_child (h := s.host.opened) s.host.pipes command
          echo hc
        show ((s.host.opened.grown s.host.pipes command echo).children[i]?).any _ = _
        rw [hc', Option.any_some, Option.any_some, hl.collected]
    | none =>
        cases hc' : (s.launched command echo).host.children[i]? with
        | none => rfl
        | some c' =>
            rcases Host.grown_cases (h := s.host.opened) hc' with ⟨c, hold, -⟩ | ⟨-, hl⟩
            · rw [show s.host.opened.children = s.host.children from rfl, hc] at hold
              cases hold
            · exact hl.collected
  refine h.ledger.congr (Host.grown_keeps Host.collections (fun _ => rfl) rfl) hexits rfl rfl hmem
    fun i hi => ?_
  obtain ⟨c, hc, hcoll⟩ := (Option.any_eq_true ..).1 ((h.ledger.mem i).1 hi)
  obtain ⟨st, hst⟩ := Option.ne_none_iff_exists'.1 ((h.fits i c hc).ended hcoll)
  obtain ⟨c', hc', hl⟩ := Host.grown_child (h := s.host.opened) s.host.pipes command
    echo hc
  show ((s.host.opened.grown s.host.pipes command echo).children[i]?).bind _ = _
  rw [hc, hc', Option.bind_some, Option.bind_some, hst, hl.status st hst]

/-- A launch leaves a sound session. -/
theorem Sound.launched (h : s.Sound o)
    (hp : s.host.pipes = s.host.children.length + 1 + o.pipes)
    (hc : s.board.canLaunch = true) : (s.launched command echo).Sound o where
  board := by
    have hk := h.board.kept_launched command
    unfold Session.launched
    dsimp only
    rw [h.children]
    exact h.board.enroll hc hk rfl rfl
  children := by
    show (s.host.opened.grown s.host.pipes command echo).children.length =
      (s.board.jobs ++ [_]).length
    rw [Host.length_grown, List.length_append, ← h.children]
    rfl
  fits := fun i c' hc' => h.fits_launched hp hc'
  descriptors := by
    unfold Session.launched
    dsimp only
    rw [openEnds_enroll h, h.descriptors, hp]
  misused := (Host.grown_keeps Host.misused (fun _ => rfl) rfl).trans h.misused
  wakeup := (Host.grown_keeps Host.wakeup (fun _ => rfl) rfl).trans h.wakeup
  ledger := h.ledger_launched

end Session

end OrderedJobs
