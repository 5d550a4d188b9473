import OrderedJobs.Proofs.ExitCode
import OrderedJobs.Proofs.PlainCalls

/-! # Spawning

A spawn makes a pipe and a child, closes the write end of the pipe, and leaves its read end with the
job.  It fails only with the call that makes the pipe or the one that makes the process
(`Host.spawnFault`), and then nothing is left of it (`Host.spawn_refused`).  Otherwise there is one
more child and one more descriptor (`Host.Spawned`), also if the child did not get to its command:
such a child has ended by then (`Host.grown_of_failing`).

The parent does not hold the write end of the pipe, and no call can open it again, since pipes are
numbered in the order of their making (`Host.Numbered`): every call keeps this
(`Calls.numbered`), and so it is whenever a run launches (`Run.Steady.numbered`).  Hence, whatever
is done afterwards, the end of the stream is there as soon as the bytes are read and the child's own
end is closed (`Host.stream_of_spawned`). -/

namespace OrderedJobs

/-! ### What any call leaves -/

/-- The pipe that a call names has been made. -/
def SystemCall.Named (h : Host) : SystemCall → Prop
  | fork pipe _ _ => pipe < h.pipes
  | _ => True

theorem Child.later_foldl_undergo (i : Nat) (es : List Event) (c : Child) :
    c.Later (es.foldl (undergo i) c) := by
  induction es generalizing c with
  | nil => exact .refl c
  | cons e es ih => exact (c.later_undergo i e).trans (ih _)

namespace Host

variable {h h' : Host} {i pipe : Nat} {c : Child} {e : Event} {f : Child → Child}
  {command : Command} {echo : Option Bytes}

/-- The pipes of the children. -/
def childPipes (h : Host) : List Nat := h.children.map Child.pipe

/-- What may have become of the descriptors: one is new only if its pipe is. -/
structure Opens (h h' : Host) : Prop where
  pipes : h.pipes ≤ h'.pipes
  descriptors : ∀ d ∈ h'.descriptors, d ∈ h.descriptors ∨ h.pipes ≤ d.pipe ∧ d.pipe < h'.pipes

theorem Opens.of_subset (hpipes : h'.pipes = h.pipes) (hsub : h'.descriptors ⊆ h.descriptors) :
    h.Opens h' :=
  ⟨Nat.le_of_eq hpipes.symm, fun _ hd => .inl (hsub hd)⟩

theorem Opens.of_keeps (hk : h.Keeps h') : h.Opens h' :=
  .of_subset hk.pipes (hk.descriptors ▸ List.Subset.refl _)

theorem opens_opened (h : Host) : h.Opens h.opened := by
  refine ⟨Nat.le_succ _, fun d hd => ?_⟩
  simp only [opened, List.mem_append, List.mem_cons, List.not_mem_nil, or_false] at hd
  rcases hd with hd | rfl | rfl
  · exact .inl hd
  · exact .inr ⟨Nat.le_refl _, Nat.lt_succ_self _⟩
  · exact .inr ⟨Nat.le_refl _, Nat.lt_succ_self _⟩

theorem pipes_close (h : Host) (d : Descriptor) : (h.close d).pipes = h.pipes := by
  obtain ⟨descriptors, misused, heq⟩ := h.close_frame d
  rw [heq]

/-- What any call leaves: moreover, the children keep their pipes. -/
structure Grows (h h' : Host) : Prop extends h.Opens h' where
  childPipes : h.childPipes <+: h'.childPipes

namespace Grows

theorem refl (h : Host) : h.Grows h := ⟨.of_subset rfl (List.Subset.refl _), List.prefix_refl _⟩

theorem trans {h₁ h₂ h₃ : Host} (h : h₁.Grows h₂) (k : h₂.Grows h₃) : h₁.Grows h₃ where
  pipes := Nat.le_trans h.pipes k.pipes
  descriptors := by
    intro d hd
    have hpipes := h.pipes
    have hpipes' := k.pipes
    rcases k.descriptors d hd with hd | hnew
    · rcases h.descriptors d hd with hd | hnew
      · exact .inl hd
      · exact .inr (by omega)
    · exact .inr (by omega)
  childPipes := h.childPipes.trans k.childPipes

variable (hg : h.Grows h')
include hg

/-- A descriptor that was closed stays so. -/
theorem not_mem {d : Descriptor} (hd : d ∉ h.descriptors) (hmade : d.pipe < h.pipes) :
    d ∉ h'.descriptors := by
  intro hmem
  rcases hg.descriptors d hmem with hmem | hnew
  · exact hd hmem
  · omega

theorem child (hc : h.children[i]? = some c) :
    ∃ c', h'.children[i]? = some c' ∧ c'.pipe = c.pipe := by
  have hpipe : h.childPipes[i]? = some c.pipe := by
    unfold Host.childPipes
    rw [List.getElem?_map, hc, Option.map_some]
  obtain ⟨more, hmore⟩ := hg.childPipes
  have hpipe' : h'.childPipes[i]? = some c.pipe := by
    rw [← hmore, List.getElem?_append_left (List.getElem?_eq_some_iff.1 hpipe).1, hpipe]
  unfold Host.childPipes at hpipe'
  rw [List.getElem?_map] at hpipe'
  exact Option.map_eq_some_iff.1 hpipe'

end Grows

theorem Later.childPipes (hl : h.Later h') : h'.childPipes = h.childPipes :=
  hl.map_eq fun _ _ hlc => hlc.pipe

theorem childPipes_updateChild (hf : ∀ c, (f c).pipe = c.pipe) (h : Host) (i : Nat) :
    (h.updateChild i f).childPipes = h.childPipes := by
  refine map_eq_of_getElem? (List.length_modify ..) fun k c' hc' => ?_
  rw [children_updateChild] at hc'
  obtain ⟨c, hc, rfl⟩ := Option.map_eq_some_iff.1 hc'
  refine ⟨c, hc, ?_⟩
  split
  · exact hf c
  · rfl

theorem childPipes_useOutput (h : Host) (i : Nat) : (h.useOutput i).childPipes = h.childPipes := by
  obtain ⟨misused, heq⟩ := h.useOutput_frame i
  rw [heq]
  rfl

theorem childPipes_useNotices (h : Host) : h.useNotices.childPipes = h.childPipes := by
  obtain ⟨misused, heq⟩ := h.useNotices_frame
  rw [heq]
  rfl

theorem childPipes_poll (active : Option Nat) (h : Host) :
    (h.poll active).2.childPipes = h.childPipes := by
  rw [(later_watch active h).childPipes]
  unfold watch
  split
  · exact h.childPipes_useNotices
  · rw [childPipes_useOutput, childPipes_useNotices]

theorem childPipes_collect (h : Host) (pid : Int) :
    (h.collect pid).2.childPipes = h.childPipes := by
  rcases h.collect_snd pid with heq | ⟨j, heq⟩
  · rw [heq]
  · rw [heq]
    exact childPipes_updateChild (by intro c; rfl) h j

theorem childPipes_read (h : Host) (i limit : Nat) :
    (h.read i limit).2.childPipes = h.childPipes := by
  unfold read
  split
  · exact h.childPipes_useOutput i
  split
  · exact h.childPipes_useOutput i
  split
  · rfl
  split
  · rfl
  · exact childPipes_updateChild (by intro c; rfl) h i

theorem childPipes_kill (h : Host) (pid : Int) (signal : Nat) :
    (h.kill pid signal).childPipes = h.childPipes := by
  unfold kill
  split
  · rfl
  · next i _ =>
      split
      · rfl
      · exact (later_occur _ (.finish i signal false)).childPipes

theorem childPipes_grown : (h.grown pipe command echo).childPipes = h.childPipes ++ [pipe] := by
  rw [later_grown.childPipes, childPipes, children_withChild, List.map_append]
  rfl

end Host

namespace SystemCall

variable {h : Host}

/-- A call makes a child for the pipe that it names, or leaves the children their pipes. -/
theorem childPipes_effect (call : SystemCall) (h : Host) :
    (call.effect h).childPipes = h.childPipes ∨ ∃ pipe command echo,
      call = .fork pipe command echo ∧ (call.effect h).childPipes = h.childPipes ++ [pipe] := by
  cases call with
  | fork pipe command echo =>
      show (h.fork pipe command echo).2.childPipes = _ ∨ ∃ _ _ _, _ = _ ∧
        (h.fork pipe command echo).2.childPipes = _
      cases hfork : h.platform.faults.fork.error? h.forkCalls with
      | some e =>
          rw [Host.fork_error hfork]
          exact .inl rfl
      | none =>
          rw [Host.fork_ok hfork]
          exact .inr ⟨pipe, command, echo, rfl, Host.childPipes_grown⟩
  | makePipe =>
      left
      show h.makePipe.2.childPipes = _
      cases hpipe : h.platform.faults.pipe.error? h.pipeCalls with
      | some e => rw [Host.makePipe_error hpipe]; rfl
      | none => rw [Host.makePipe_ok hpipe]; rfl
  | close d =>
      left
      show (h.close d).childPipes = _
      obtain ⟨descriptors, misused, heq⟩ := h.close_frame d
      rw [heq]
      rfl
  | setSignals => exact .inl rfl
  | poll active => exact .inl (h.childPipes_poll active)
  | takeNotices => exact .inl h.childPipes_useNotices
  | collect pid => exact .inl (h.childPipes_collect pid)
  | read child limit => exact .inl (h.childPipes_read child limit)
  | write data =>
      left
      show (h.write data).2.childPipes = _
      obtain ⟨accepted, calls, heq⟩ := h.write_frame data
      rw [heq]
      rfl
  | kill pid signal => exact .inl (h.childPipes_kill pid signal)

/-- A call opens the two ends of a pipe that it makes, and no others. -/
theorem opens_effect (call : SystemCall) (h : Host) : h.Opens (call.effect h) := by
  cases call with
  | makePipe =>
      show h.Opens h.makePipe.2
      cases hpipe : h.platform.faults.pipe.error? h.pipeCalls with
      | some e =>
          rw [Host.makePipe_error hpipe]
          exact .of_subset rfl (List.Subset.refl _)
      | none =>
          rw [Host.makePipe_ok hpipe]
          exact h.opens_opened
  | fork pipe command echo =>
      show h.Opens (h.fork pipe command echo).2
      cases hfork : h.platform.faults.fork.error? h.forkCalls with
      | some e =>
          rw [Host.fork_error hfork]
          exact .of_subset rfl (List.Subset.refl _)
      | none =>
          have hdescriptors : (h.grown pipe command echo).descriptors = h.descriptors :=
            Host.grown_keeps Host.descriptors (fun _ => rfl) rfl
          rw [Host.fork_ok hfork]
          exact .of_subset (Host.grown_keeps Host.pipes (fun _ => rfl) rfl)
            fun _ hd => hdescriptors ▸ hd
  | close d => exact .of_subset (h.pipes_close d) (h.shrinks_close d).descriptors.subset
  | setSignals => exact .of_subset rfl (List.Subset.refl _)
  | poll active => exact .of_keeps (h.keeps_poll active)
  | takeNotices => exact .of_keeps h.keeps_takeNotices
  | collect pid => exact .of_keeps (h.keeps_collect pid)
  | read child limit => exact .of_keeps (h.keeps_read child limit)
  | write data => exact .of_keeps (h.keeps_write data)
  | kill pid signal => exact .of_keeps (h.keeps_kill pid signal)

theorem grows_effect (call : SystemCall) (h : Host) : h.Grows (call.effect h) where
  toOpens := call.opens_effect h
  childPipes := by
    rcases call.childPipes_effect h with heq | ⟨pipe, command, echo, -, heq⟩
    · exact heq.symm ▸ List.prefix_refl _
    · exact heq.symm ▸ List.prefix_append _ _

end SystemCall

/-- And so do any number of calls. -/
theorem Calls.grows {h h' : Host} {es : List Entry} (hc : Calls h es h') : h.Grows h' := by
  induction hc with
  | nil h => exact .refl h
  | cons hhost _ ih =>
      subst hhost
      exact (SystemCall.grows_effect _ _).trans ih

/-! ### The numbers of pipes -/

namespace Host

variable {h : Host}

/-- Pipes are numbered in the order of their making: all that the parent or a child has an end of
come before the next. -/
structure Numbered (h : Host) : Prop where
  descriptors : ∀ d ∈ h.descriptors, d.pipe < h.pipes
  childPipes : ∀ pipe ∈ h.childPipes, pipe < h.pipes

theorem numbered_found (platform : Platform) (rounds : List (List Event)) (handler : Handler)
    (wakeup : Option Descriptor) (o : Holdings) :
    (found platform rounds handler wakeup o).Numbered :=
  ⟨o.made, fun _ hmem => absurd hmem List.not_mem_nil⟩

/-- Every call keeps the numbering, if the pipe of a new child has been made. -/
theorem Numbered.effect (hn : h.Numbered) {call : SystemCall} (hcall : call.Named h) :
    (call.effect h).Numbered := by
  have hg := call.grows_effect h
  constructor
  · intro d hd
    rcases hg.descriptors d hd with hd | hnew
    · exact Nat.lt_of_lt_of_le (hn.descriptors d hd) hg.pipes
    · exact hnew.2
  · intro pipe hmem
    refine Nat.lt_of_lt_of_le ?_ hg.pipes
    rcases call.childPipes_effect h with heq | ⟨pipe', command, echo, rfl, heq⟩
    · exact hn.childPipes pipe (heq ▸ hmem)
    · rw [heq, List.mem_append, List.mem_singleton] at hmem
      rcases hmem with hmem | rfl
      · exact hn.childPipes pipe hmem
      · exact hcall

end Host

theorem Calls.numbered {h h' : Host} {es : List Entry} (hc : Calls h es h') (hn : h.Numbered)
    (hnamed : ∀ e ∈ es, e.call.Named e.host) : h'.Numbered := by
  induction hc with
  | nil => exact hn
  | cons hhost _ ih =>
      subst hhost
      rw [List.forall_mem_cons] at hnamed
      exact ih (hn.effect hnamed.1) hnamed.2

/-- Whenever the loop of a run goes round, and so before each of its launches, the pipes are
numbered in order. -/
theorem Run.Steady.numbered {r : Run} {o : Holdings} (h : r.Steady o) :
    r.session.host.Numbered := by
  have hpipes := h.pipes
  have hlength := h.sound.length_eq
  have hle := h.sound.board.current_le
  have hnn := h.sound.board.current_nonneg
  constructor
  · intro d hd
    rw [h.sound.descriptors, Board.openEnds, List.mem_append] at hd
    cases hd with
    | inl hold =>
        have := o.made d hold
        omega
    | inr hnew =>
        simp only [List.mem_cons, List.mem_map, List.mem_range'_1] at hnew
        obtain rfl | rfl | ⟨pipe, hrange, rfl⟩ := hnew
        all_goals
          simp only [Descriptor.pipe]
          omega
  · intro pipe hmem
    obtain ⟨c, hc, rfl⟩ := List.mem_map.1 hmem
    obtain ⟨i, hi⟩ := List.mem_iff_getElem?.1 hc
    have hlt := (List.getElem?_eq_some_iff.1 hi).1
    rw [(h.sound.fits i c hi).pipe]
    omega

/-! ### A child that does not get to its command -/

namespace Host

variable {h h' : Host} {i pipe : Nat} {c : Child} {e : Event} {job : Job} {command : Command}
  {echo : Option Bytes}

theorem updateChild_eq_self {f : Child → Child} (hc : h.children[i]? = some c) (hf : f c = c) :
    h.updateChild i f = h := by
  have hsame : h.children.modify i f = h.children := by
    refine List.ext_getElem? fun k => ?_
    rw [List.getElem?_modify]
    by_cases hk : i = k
    · subst hk
      rw [hc]
      simp [hf]
    · simp [hk]
  unfold updateChild
  rw [hsame]

/-- Nothing happens any more to a child that has ended and does not hold its pipe. -/
theorem occur_eq_self (hc : h.children[i]? = some c) (hs : c.status ≠ none)
    (hheld : c.held = false) (he : e.child? = some i) : h.occur e = h := by
  cases e with
  | data k bytes =>
      cases he
      refine updateChild_eq_self hc ?_
      rw [hheld, Bool.false_and]
      rfl
  | close k =>
      cases he
      refine updateChild_eq_self hc ?_
      rw [← hheld]
  | finish k status held =>
      cases he
      refine finishChild_eq_self status held fun c' hc' => ?_
      rw [hc] at hc'
      cases hc'
      exact hs
  | wake n => cases he

theorem foldl_occur_eq_self {es : List Event} (hc : h.children[i]? = some c)
    (hs : c.status ≠ none) (hheld : c.held = false) (hes : ∀ e ∈ es, e.child? = some i) :
    es.foldl occur h = h := by
  induction es with
  | nil => rfl
  | cons e es ih =>
      rw [List.foldl_cons, occur_eq_self hc hs hheld (hes e List.mem_cons_self)]
      exact ih fun e he => hes e (List.mem_cons_of_mem _ he)

/-- The child that is born cannot get to its command. -/
def Failing (h : Host) (command : Command) : Prop :=
  h.platform.setupFails = true ∨ (h.platform.execFailure h.children.length command).isSome = true

theorem newChild_of_failing (hf : h.Failing command) (pipe : Nat) (echo : Option Bytes) :
    (h.newChild pipe command echo).status = some (.ofExit 1) ∧
      (h.newChild pipe command echo).held = false := by
  have hfails : (h.platform.setupFails ||
      (h.platform.execFailure h.children.length command).isSome) = true :=
    Bool.or_eq_true_iff.2 hf
  refine ⟨by rw [status_newChild, if_pos hfails], ?_⟩
  show (!(Call.obstacle _ _ _ _ _).isSome) = false
  rw [Call.isSome_obstacle, hfails]
  rfl

/-- Such a child has ended by the time the parent goes on. -/
theorem grown_of_failing (hf : h.Failing command) (pipe : Nat) (echo : Option Bytes) :
    h.grown pipe command echo = h.withChild pipe command echo := by
  obtain ⟨hstatus, hheld⟩ := newChild_of_failing hf pipe echo
  have hborn : (h.withChild pipe command echo).children[h.children.length]? =
      some (h.newChild pipe command echo) := by
    rw [children_withChild]
    exact List.getElem?_concat_length
  refine foldl_occur_eq_self hborn ?_ hheld fun e he => ?_
  · rw [hstatus]
    exact Option.some_ne_none _
  · exact beq_iff_eq.1 (List.mem_filter.1 he).2

theorem notices_of_failing (hf : h.Failing command) (pipe : Nat) (echo : Option Bytes) :
    (h.grown pipe command echo).notices = h.notices + if h.wakeup.isSome then 1 else 0 := by
  rw [grown_of_failing hf]
  unfold withChild notify
  dsimp only
  rw [(newChild_of_failing hf pipe echo).1, Option.isSome_some, if_pos rfl]
  split <;> rfl

/-! ### The pipe of a child that was spawned -/

/-- While the parent holds the read end only, the end of the stream is there once all is read and
the child's own end is closed. -/
theorem read_nil_iff {limit : Nat} (hc : h.children[i]? = some c)
    (hread : .readEnd c.pipe ∈ h.descriptors) (hwrite : .writeEnd c.pipe ∉ h.descriptors)
    (hfault : h.platform.faults.read.error? i = none) (hlimit : 0 < limit) :
    (h.read i limit).1 = .ok [] ↔ c.waiting = [] ∧ c.held = false := by
  have hend : h.atEnd c = !c.held := by simp [atEnd, hwrite]
  unfold read
  rw [hc]
  dsimp only
  rw [if_neg (not_not_intro hread), hfault]
  dsimp only
  cases hwaiting : c.waiting with
  | nil => cases hheld : c.held <;> simp [hend, hheld]
  | cons x rest =>
      obtain ⟨n, rfl⟩ := Nat.exists_eq_succ_of_ne_zero (Nat.pos_iff_ne_zero.1 hlimit)
      simp

/-- The events that were kept for a child that is born, happen to it and to no other. -/
theorem children_grown : (h.grown pipe command echo).children = h.children ++
    [(h.deferred.filter (·.child? == some h.children.length)).foldl
      (Child.undergo h.children.length) (h.newChild pipe command echo)] := by
  refine List.ext_getElem? fun k => ?_
  unfold grown
  rw [children_foldl_occur, children_withChild]
  rcases Nat.lt_trichotomy k h.children.length with hk | rfl | hk
  · have hsame : ∀ c : Child, (h.deferred.filter (·.child? == some h.children.length)).foldl
        (Child.undergo k) c = c := by
      refine Child.foldl_undergo_of_ne fun e he heq => ?_
      have hborn := beq_iff_eq.1 (List.mem_filter.1 he).2
      rw [heq, Option.some.injEq] at hborn
      omega
    simp only [List.getElem?_append_left hk, hsame, Option.map_id']
  · simp
  · rw [List.getElem?_eq_none (by simp; omega), List.getElem?_eq_none (by simp; omega)]
    rfl

/-! ### Spawning -/

/-- The call with which a spawn fails, and how. -/
def spawnFault (h : Host) : Option (Operation × OsError) :=
  match h.platform.faults.pipe.error? h.pipeCalls with
  | some e => some (.pipe, e)
  | none => (h.platform.faults.fork.error? h.forkCalls).map (.fork, ·)

/-- What a spawn leaves of a host: there is one more child, and the read end of its pipe is open. -/
structure Spawned (h : Host) (job : Job) (c : Child) (h' : Host) : Prop where
  children : h'.children = h.children ++ [c]
  command : c.command = job.command
  /-- The pipe is a new one. -/
  pipe : c.pipe = h.pipes ∧ (∀ d ∈ h.descriptors, d.pipe ≠ c.pipe) ∧
    ∀ old ∈ h.children, old.pipe ≠ c.pipe
  descriptors : h'.descriptors = h.descriptors ++ [.readEnd c.pipe]
  misused : h'.misused = h.misused
  /-- Whatever calls are made then: as long as the read end is open, the end of the stream is there
  exactly when all is read and the child's own end is closed. -/
  stream : ∀ (es : List Entry) (t : Host), Calls h' es t → .readEnd c.pipe ∈ t.descriptors →
    t.platform.faults.read.error? h.children.length = none →
    ∃ c', t.children[h.children.length]? = some c' ∧ c'.pipe = c.pipe ∧ ∀ limit > 0,
      (t.read h.children.length limit).1 = .ok [] ↔ c'.waiting = [] ∧ c'.held = false
  /-- A child that does not get to its command has ended, and has announced it. -/
  failing : h.Failing job.command →
    c.status = some 256 ∧ c.held = false ∧ h'.notices = h.notices + if h.wakeup.isSome then 1 else 0

theorem Numbered.not_mem (hn : h.Numbered) {d : Descriptor} (hd : h.pipes ≤ d.pipe) :
    d ∉ h.descriptors :=
  fun hmem => absurd (hn.descriptors d hmem) (Nat.not_lt.2 hd)

/-- A spawn that fails changes nothing but the numbers that calls and pipes will have. -/
theorem spawn_refused (hn : h.Numbered) {operation : Operation} {error : OsError}
    (hf : h.spawnFault = some (operation, error)) : ∃ pipeCalls pipes forkCalls,
      ∀ (job : Job) (echo : Option Bytes), h.spawn job echo =
        (.error (.system operation error), { h with pipeCalls, pipes, forkCalls }) := by
  unfold spawnFault at hf
  unfold spawn
  cases hp : h.platform.faults.pipe.error? h.pipeCalls with
  | some e =>
      rw [hp] at hf
      cases hf
      rw [makePipe_error hp]
      exact ⟨_, _, _, fun _ _ => rfl⟩
  | none =>
      rw [hp] at hf
      obtain ⟨e, hfork, heq⟩ := Option.map_eq_some_iff.1 hf
      cases heq
      rw [makePipe_ok hp]
      refine ⟨h.pipeCalls + 1, h.pipes + 1, h.forkCalls + 1, fun job echo => ?_⟩
      dsimp only
      rw [fork_error (h := h.opened) hfork]
      exact Prod.ext rfl (h.close_opened _ (hn.not_mem (Nat.le_refl _))
        (hn.not_mem (Nat.le_refl _)))

/-- The host with one more child, for which the parent holds the read end of a pipe. -/
def spawned (h : Host) (command : Command) (echo : Option Bytes) : Host :=
  { h.opened.grown h.pipes command echo with
    descriptors := h.descriptors ++ [.readEnd h.pipes] }

theorem spawn_granted (hn : h.Numbered) (hf : h.spawnFault = none) (job : Job)
    (echo : Option Bytes) : h.spawn job echo =
      (.ok (job.runBy h.children.length), h.spawned job.command echo) := by
  have hread : .readEnd h.pipes ∉ h.descriptors := hn.not_mem (Nat.le_refl _)
  have hwrite : .writeEnd h.pipes ∉ h.descriptors := hn.not_mem (Nat.le_refl _)
  unfold spawnFault at hf
  rcases h.spawn_cases job echo hread hwrite with ⟨e, he, -⟩ | ⟨e, he, -⟩ | heq
  · rw [he] at hf
    cases hf
  · rw [he] at hf
    cases hp : h.platform.faults.pipe.error? h.pipeCalls <;> rw [hp] at hf <;> cases hf
  · exact heq

/-- The pipe of a new child reaches its end exactly when it should, whatever is done. -/
theorem stream_of_spawned (hc : h.children[i]? = some c) (hmade : c.pipe < h.pipes)
    (hwrite : .writeEnd c.pipe ∉ h.descriptors) {es : List Entry} (hcalls : Calls h es h')
    (hread : .readEnd c.pipe ∈ h'.descriptors)
    (hfault : h'.platform.faults.read.error? i = none) :
    ∃ c', h'.children[i]? = some c' ∧ c'.pipe = c.pipe ∧ ∀ limit > 0,
      (h'.read i limit).1 = .ok [] ↔ c'.waiting = [] ∧ c'.held = false := by
  obtain ⟨c', hc', hpipe⟩ := hcalls.grows.child hc
  refine ⟨c', hc', hpipe, fun limit hlimit => ?_⟩
  have hshut := hcalls.grows.not_mem hwrite hmade
  rw [← hpipe] at hread hshut
  exact read_nil_iff hc' hread hshut hfault hlimit

theorem children_spawned (h : Host) (command : Command) (echo : Option Bytes) : ∃ c,
    (h.spawned command echo).children = h.children ++ [c] ∧
      (h.opened.newChild h.pipes command echo).Later c :=
  ⟨_, children_grown, Child.later_foldl_undergo _ _ _⟩

theorem exists_spawned (hn : h.Numbered) (job : Job) (echo : Option Bytes) :
    ∃ c, h.Spawned job c (h.spawned job.command echo) := by
  obtain ⟨c, hchildren, hlater⟩ := h.children_spawned job.command echo
  have hpipe : c.pipe = h.pipes := hlater.pipe
  have hpipes : (h.spawned job.command echo).pipes = h.pipes + 1 :=
    grown_keeps Host.pipes (fun _ => rfl) rfl
  refine ⟨c, ?_⟩
  constructor
  case children => exact hchildren
  case command => exact hlater.command
  case pipe =>
    refine ⟨hpipe, fun d hd heq => ?_, fun old hold heq => ?_⟩
    · have := hn.descriptors d hd
      omega
    · have := hn.childPipes _ (List.mem_map_of_mem hold)
      omega
  case descriptors => rw [hpipe]; rfl
  case misused => exact grown_keeps Host.misused (fun _ => rfl) rfl
  case stream =>
    intro es t hcalls hread hfault
    have hborn : (h.spawned job.command echo).children[h.children.length]? = some c := by
      rw [hchildren]
      exact List.getElem?_concat_length
    have hwrite : .writeEnd c.pipe ∉ (h.spawned job.command echo).descriptors := by
      show _ ∉ h.descriptors ++ [.readEnd h.pipes]
      have hnew : .writeEnd c.pipe ∉ h.descriptors := hn.not_mem (Nat.le_of_eq hpipe.symm)
      simp [hnew]
    exact stream_of_spawned hborn (by omega) hwrite hcalls hread hfault
  case failing =>
    intro hf
    obtain ⟨hstatus, hheld⟩ := newChild_of_failing (h := h.opened) hf h.pipes echo
    refine ⟨hlater.status _ hstatus, ?_, notices_of_failing (h := h.opened) hf h.pipes echo⟩
    rw [← Bool.not_eq_true]
    intro htrue
    rw [hlater.held htrue] at hheld
    cases hheld

/-- A spawn is all or nothing.  It fails exactly with its first call that fails in the parent, and
then there is no child, no job is launched, and what is open is what was open; or there is one more
child, whatever becomes of it, and its job is launched. -/
theorem spawn_all_or_nothing (h : Host) (hn : h.Numbered) (job : Job) (echo : Option Bytes) :
    (∀ operation error, h.spawnFault = some (operation, error) →
      ∃ pipeCalls pipes forkCalls, h.spawn job echo =
          (.error (.system operation error), { h with pipeCalls, pipes, forkCalls }) ∧
        ∀ s : Session, s.host = h → s.launch job.command echo =
          (.error (.system operation error),
            { s with host := { h with pipeCalls, pipes, forkCalls } })) ∧
    (h.spawnFault = none → ∃ c h', h.spawn job echo =
        (.ok { job with
          stage := .launched, pid := some (pidOf h.children.length)
          output := some h.children.length }, h') ∧
      h.Spawned job c h') := by
  constructor
  · intro operation error hf
    obtain ⟨pipeCalls, pipes, forkCalls, heq⟩ := spawn_refused hn hf
    refine ⟨pipeCalls, pipes, forkCalls, heq job echo, fun s hs => ?_⟩
    subst hs
    unfold Session.launch
    rw [heq]
  · intro hf
    obtain ⟨c, hc⟩ := exists_spawned hn job echo
    exact ⟨c, _, spawn_granted hn hf job echo, hc⟩

/-- Without a process there is no child and no pipe; without a null device there are both, and the
child has ended. -/
theorem spawn_all_or_nothing_no_process :
    let job : Job := { index := 0, command := [[0x61]] }
    let h := found { faults := { fork := some (0, .ofNumber 12) } } [] .default none { }
    let h' := found { faults := { nullDevice := some (.ofNumber 2) } } [] .default none { }
    (h.Numbered ∧ h.spawnFault = some (.fork, .ofNumber 12) ∧
      (h.spawn job none).1 = .error (.system .fork (.ofNumber 12)) ∧
      (h.spawn job none).2.children = [] ∧ (h.spawn job none).2.descriptors = []) ∧
    h'.Numbered ∧ h'.spawnFault = none ∧ h'.Failing job.command ∧
      (h'.spawn job none).2.descriptors = [.readEnd 0] ∧
      (h'.spawn job none).2.children.map Child.status = [some 256] := by
  intro job h h'
  have hn : h.Numbered := numbered_found _ _ _ _ _
  have hn' : h'.Numbered := numbered_found _ _ _ _ _
  have hfailing : h'.Failing job.command := .inl rfl
  obtain ⟨pipeCalls, pipes, forkCalls, heq, -⟩ :=
    (spawn_all_or_nothing h hn job none).1 .fork (.ofNumber 12) rfl
  obtain ⟨c, t, heq', hspawned⟩ := (spawn_all_or_nothing h' hn' job none).2 rfl
  have hdescriptors : t.descriptors = [.readEnd 0] := by
    rw [hspawned.descriptors, hspawned.pipe.1]
    rfl
  have hstatus : t.children.map Child.status = [some 256] := by
    rw [hspawned.children, List.map_append, List.map_singleton, (hspawned.failing hfailing).1]
    rfl
  rw [heq, heq']
  exact ⟨⟨hn, rfl, rfl, rfl, rfl⟩, hn', rfl, hfailing, hdescriptors, hstatus⟩

end Host

end OrderedJobs
