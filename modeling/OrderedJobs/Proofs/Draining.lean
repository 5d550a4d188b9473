import OrderedJobs.Proofs.SessionSound

/-! # Draining

Draining the job at the cursor either fails on the read, or copies a chunk of what waits in its pipe
(`Session.taken`), or finds the pipe at its end, closes it and moves the cursor on
(`Session.closed`).  All three leave a sound session, whatever becomes of the writing that follows
(`Sound.drain`), and no guard of the book-keeping stands in the way (`Sound.drain_cases`). -/

namespace OrderedJobs

namespace Host

variable {h : Host} {i limit : Nat} {c : Child}

/-- The host after a read from the pipe of a child. -/
def taken (h : Host) (i limit : Nat) : Host :=
  h.updateChild i fun c =>
    { c with
      passed := c.passed ++ c.waiting.take limit
      waiting := c.waiting.drop limit }

/-- A read fails for a fault or for want of anything to read, or it takes what waits up to the
limit. -/
theorem read_cases (hc : h.children[i]? = some c) (hopen : .readEnd c.pipe ∈ h.descriptors)
    (limit : Nat) :
    (∃ e, h.read i limit = (.error e, h) ∧
      (h.platform.faults.read.error? i = some e ∨ h.readable i = false)) ∨
    h.read i limit = (.ok (c.waiting.take limit), h.taken i limit) ∧
      (c.waiting = [] → h.atEnd c = true) := by
  unfold read
  rw [hc]
  dsimp only
  rw [if_neg (fun hnot => hnot hopen)]
  cases hf : h.platform.faults.read.error? i with
  | some e => exact .inl ⟨e, rfl, .inl rfl⟩
  | none =>
      dsimp only
      split
      · next hagain =>
          refine .inl ⟨_, rfl, .inr ?_⟩
          unfold readable
          rw [hc, Option.any_some]
          rw [Bool.and_eq_true, Bool.not_eq_true'] at hagain
          rw [hagain.1, hagain.2]
          rfl
      · next hready =>
          refine .inr ⟨rfl, fun hnil => ?_⟩
          rw [hnil] at hready
          simpa using hready

theorem taken_nil (hc : h.children[i]? = some c) (hnil : c.waiting = []) :
    h.taken i limit = h := by
  have hmod : h.children.modify i (fun c => { c with
      passed := c.passed ++ c.waiting.take limit
      waiting := c.waiting.drop limit }) = h.children := by
    refine List.ext_getElem? fun k => ?_
    rw [List.getElem?_modify]
    by_cases hik : i = k
    · subst hik
      rw [hc]
      obtain ⟨pipe, command, calls, passed, waiting, held, status, collected⟩ := c
      cases hnil
      simp
    · simp [hik]
  unfold taken updateChild
  rw [hmod]

end Host

namespace Session

variable {s : Session} {o : Holdings} {j : Nat} {c : Child} {job : Job}

/-- The session in which a job is known to be drained. -/
def began (s : Session) (j : Nat) : Session :=
  { s with board := s.board.updateJob j fun job => { job with stage := .draining } }

/-- The session after a chunk was read from a job's pipe. -/
def taken (s : Session) (j : Nat) : Session := { s with host := s.host.taken j chunk }

/-- The session after a job's pipe was closed and the cursor has moved on. -/
def closed (s : Session) (j : Nat) (o : Holdings := {}) : Session :=
  { s with
    host := { s.host with descriptors := s.host.descriptors.erase (.readEnd (j + 1 + o.pipes)) }
    board := (s.board.recordDrained j).settled j
    journal := s.journal ++ [.drained j] }

/-! ### The three moves -/

theorem Sound.began (h : s.Sound o) (hj : (j : Int) = s.board.current) : (s.began j).Sound o where
  board := h.board.startDraining (by omega)
  children := by
    show s.host.children.length = (s.board.jobs.modify j _).length
    rw [List.length_modify, h.children]
  fits := by
    intro i c hc
    have hfits := h.fits i c hc
    refine ⟨hfits.pipe, ?_, hfits.ended, hfits.drained, hfits.unread⟩
    rw [← hfits.reaped]
    exact Board.map_modify (f := fun job => { job with stage := .draining }) (fun _ => rfl) _ _
  descriptors := h.descriptors
  misused := h.misused
  wakeup := h.wakeup
  ledger := h.ledger.congr rfl rfl rfl rfl (fun _ => rfl) fun _ _ => rfl

theorem Sound.taken (h : s.Sound o) (hj : (j : Int) = s.board.current) : (s.taken j).Sound o := by
  have hchildren : ∀ i : Nat, (s.taken j).host.children[i]? = (s.host.children[i]?).map fun c =>
      if j = i then { c with
        passed := c.passed ++ c.waiting.take chunk
        waiting := c.waiting.drop chunk } else c :=
    fun i => Host.children_updateChild s.host j i _
  constructor
  case board => exact h.board
  case children => exact (List.length_modify ..).trans h.children
  case fits =>
    intro i c' hc'
    rw [hchildren] at hc'
    obtain ⟨c, hc, rfl⟩ := Option.map_eq_some_iff.1 hc'
    have hfits := h.fits i c hc
    by_cases hji : j = i
    · subst hji
      rw [if_pos rfl]
      refine ⟨hfits.pipe, hfits.reaped, hfits.ended, fun hlt => ?_, fun hlt => ?_⟩
      · have : (j : Int) < s.board.current := hlt
        omega
      · have : s.board.current < j := hlt
        omega
    · rw [if_neg hji]
      exact hfits
  case descriptors => exact h.descriptors
  case misused => exact h.misused
  case wakeup => exact h.wakeup
  case ledger =>
    refine h.ledger.congr rfl rfl rfl rfl (fun i => ?_) fun i _ => ?_
    all_goals
      rw [hchildren]
      cases s.host.children[i]? with
      | none => rfl
      | some c => by_cases hji : j = i <;> simp [hji]

theorem current_closed (s : Session) (j : Nat) (o : Holdings) :
    (s.closed j o).board.current = s.board.current + 1 := Board.settled_current _ _

theorem next_closed (s : Session) (j : Nat) (o : Holdings) :
    (s.closed j o).board.next = s.board.next := Board.settled_next _ _

theorem Sound.openEnds_closed (h : s.Sound o) (hj : (j : Int) = s.board.current)
    (hlt : s.board.current < s.board.next) :
    s.host.descriptors.erase (.readEnd (j + 1 + o.pipes)) =
      (s.closed j o).board.openEnds o := by
  have hnn := h.board.current_nonneg
  have hbefore : .readEnd (j + 1 + o.pipes) ∉ o.ends :=
    o.not_mem (show o.pipes ≤ j + 1 + o.pipes by omega)
  have hfirst : (s.board.current + 1).toNat = j + 1 := by omega
  have hcount : (s.board.next - s.board.current).toNat =
      (s.board.next - (s.board.current + 1)).toNat + 1 := by omega
  have hold : s.board.current.toNat = j := by omega
  rw [h.descriptors]
  unfold Board.openEnds
  rw [current_closed, next_closed, hold, hcount, hfirst, List.range'_succ, List.map_cons,
    List.erase_append_right _ hbefore, List.erase_cons_tail (by simp),
    List.erase_cons_tail (by simp), List.erase_cons_head,
    show j + 1 + o.pipes + 1 = j + 1 + 1 + o.pipes by omega]

theorem Sound.closed (h : s.Sound o) (hj : (j : Int) = s.board.current)
    (hlt : s.board.current < s.board.next) (hc : s.host.children[j]? = some c)
    (hwait : c.waiting = []) (hheld : c.held = false) : (s.closed j o).Sound o := by
  have hcurrent := s.current_closed j o
  constructor
  case board => exact h.board.drain hj hlt
  case children =>
    show s.host.children.length = (Board.settled _ j).jobs.length
    rw [Board.settled_length, Board.recordDrained, Board.updateJob, List.length_modify, h.children]
  case fits =>
    intro i c' hc'
    have hfits := h.fits i c' hc'
    refine ⟨hfits.pipe, ?_, hfits.ended, ?_, ?_⟩
    · rw [← hfits.reaped]
      show ((Board.settled _ j).jobs[i]?).map Job.reaped = _
      rw [Board.settled_reaped]
      exact Board.map_modify (f := fun job => { job with output := none, drained := true })
        (fun _ => rfl) _ _
    · rw [hcurrent]
      intro hi
      by_cases hij : i = j
      · subst hij
        have hc' : s.host.children[i]? = some c' := hc'
        rw [hc] at hc'
        cases hc'
        exact ⟨hwait, hheld⟩
      · exact hfits.drained (by omega)
    · rw [hcurrent]
      intro hi
      exact hfits.unread (by omega)
  case descriptors => exact h.openEnds_closed hj hlt
  case misused => exact h.misused
  case wakeup => exact h.wakeup
  case ledger =>
    have hexits : (s.closed j o).journal.exits = s.journal.exits :=
      (Journal.exits_append _ _).trans (List.append_nil _)
    exact h.ledger.congr rfl hexits (Board.settled_exitCode _ _) (Board.settled_finished _ _)
      (fun _ => rfl) fun _ _ => rfl

/-! ### A drain -/

theorem closeOutput_eq (h : s.Sound o) (hj : (j : Int) = s.board.current)
    (hlt : s.board.current < s.board.next) : s.host.closeOutput j =
      { s.host with descriptors := s.host.descriptors.erase (.readEnd (j + 1 + o.pipes)) } := by
  obtain ⟨c, hc⟩ := h.child_of_lt (j := j) (by omega)
  unfold Host.closeOutput
  rw [hc]
  dsimp only
  rw [(h.fits j c hc).pipe]
  exact Host.close_eq (h.readEnd_mem hj hlt)

theorem Sound.job_at_cursor (h : s.Sound o) (hj : (j : Int) = s.board.current)
    (hlt : s.board.current < s.board.next) :
    ∃ job, s.board.jobs[j]? = some job ∧ job.output = some j ∧ job.index = j := by
  have hlen : j < s.board.jobs.length := by
    have := h.board.next
    omega
  have hjob := List.getElem?_eq_getElem hlen
  have hkept := h.board.kept j _ hjob
  exact ⟨_, hjob, by rw [hkept.output, if_neg (by omega)], hkept.index⟩

/-- No guard of the book-keeping stands in the way when a job's pipe has been closed. -/
theorem Sound.retireIf_eq (h : s.Sound o) (hj : (j : Int) = s.board.current)
    (hlt : s.board.current < s.board.next) :
    (({ s with
      host := s.host.closeOutput j
      board := s.board.recordDrained j } : Session).say (.drained j)).retireIf Job.reaped j =
        (.ok (), s.closed j o) := by
  obtain ⟨job, hjob, -, -⟩ := h.job_at_cursor hj hlt
  have hget := Board.getElem?_recordDrained hjob
  rw [closeOutput_eq h hj hlt]
  cases hr : job.reaped with
  | true =>
      have hr' : ({ job with output := none, drained := true } : Job).reaped = true := hr
      rw [retireIf_of_true hget hr' (h.board.retire_recordDrained hj hjob hr)]
      rfl
  | false =>
      have hr' : ({ job with output := none, drained := true } : Job).reaped = false := hr
      rw [retireIf_of_false hget hr']
      unfold Session.closed
      rw [Board.settled_eq_self hget (by simp [hr])]
      rfl

theorem Sound.endOutput_eq (h : s.Sound o) (hj : (j : Int) = s.board.current)
    (hlt : s.board.current < s.board.next) (hindex : job.index = j) :
    s.endOutput j job j = (s.closed j o).showEnd := by
  unfold endOutput
  dsimp only
  rw [hindex, h.retireIf_eq hj hlt]

theorem Sound.read_cases (h : s.Sound o) (hj : (j : Int) = s.board.current)
    (hlt : s.board.current < s.board.next) (hc : s.host.children[j]? = some c) :
    (∃ e, s.host.read j chunk = (.error e, s.host) ∧
      (s.host.platform.faults.read.error? j = some e ∨ s.host.readable j = false)) ∨
    (∃ b rest, c.waiting = b :: rest ∧
      s.host.read j chunk = (.ok (c.waiting.take chunk), s.host.taken j chunk)) ∨
    (c.waiting = [] ∧ c.held = false ∧ s.host.read j chunk = (.ok [], s.host)) := by
  have hopen : .readEnd c.pipe ∈ s.host.descriptors := by
    rw [(h.fits j c hc).pipe]
    exact h.readEnd_mem hj hlt
  rcases s.host.read_cases hc hopen chunk with hfails | ⟨hr, hend⟩
  · exact .inl hfails
  · right
    cases hwait : c.waiting with
    | nil =>
        have hheld : c.held = false := by
          have := hend hwait
          rw [h.atEnd_eq hc, Bool.not_eq_true'] at this
          exact this
        rw [hwait, Host.taken_nil hc hwait] at hr
        exact .inr ⟨rfl, hheld, hr⟩
    | cons b rest => exact .inl ⟨b, rest, rfl, hwait ▸ hr⟩

/-- What a drain does once the pipe was read. -/
def afterRead (s : Session) (j : Nat) (o : Holdings := {}) :
    Except OsError Bytes → Except Failure Unit × Session
  | .error e => (.error (.system (.read j) e), s.began j)
  | .ok [] => ((s.began j).closed j o).showEnd
  | .ok (b :: rest) => ((s.began j).taken j).showData (b :: rest)

/-- A drain of the active job depends on the host by what a read of its pipe gives. -/
theorem Sound.drain_eq (h : s.Sound o) (hj : (j : Int) = s.board.current)
    (hlt : s.board.current < s.board.next) :
    s.drain j = s.afterRead j o (s.host.read j chunk).1 := by
  obtain ⟨c, hc⟩ := h.child_of_lt (j := j) (by omega)
  obtain ⟨job, hjob, hout, hindex⟩ := h.job_at_cursor hj hlt
  unfold Session.drain
  rw [hjob]
  dsimp only
  rw [hout]
  dsimp only
  rw [hindex, if_neg (fun hne => hne hj)]
  rcases h.read_cases hj hlt hc with ⟨e, hr, -⟩ | ⟨b, rest, hwait, hr⟩ | ⟨-, -, hr⟩
  · rw [hr]
    rfl
  · rw [hr, hwait]
    rfl
  · rw [hr]
    exact (h.began hj).endOutput_eq hj hlt hindex

/-- A drain of the active job fails on the read, shows a chunk of what waits, or finds the end of
the output. -/
theorem Sound.drain_cases (h : s.Sound o) (hj : (j : Int) = s.board.current)
    (hlt : s.board.current < s.board.next) (hc : s.host.children[j]? = some c) :
    (∃ e, s.drain j = (.error (.system (.read j) e), s.began j) ∧
      (s.host.platform.faults.read.error? j = some e ∨ s.host.readable j = false)) ∨
    (c.waiting ≠ [] ∧
      s.drain j = ((s.began j).taken j).showData (c.waiting.take chunk)) ∨
    (c.waiting = [] ∧ c.held = false ∧ s.drain j = ((s.began j).closed j o).showEnd) := by
  rw [h.drain_eq hj hlt]
  rcases h.read_cases hj hlt hc with ⟨e, hr, hwhy⟩ | ⟨b, rest, hwait, hr⟩ | ⟨hwait, hheld, hr⟩
  · left
    rw [hr]
    exact ⟨e, rfl, hwhy⟩
  · right; left
    rw [hr, hwait]
    exact ⟨List.cons_ne_nil b rest, rfl⟩
  · right; right
    rw [hr]
    exact ⟨hwait, hheld, rfl⟩

theorem Sound.withDisplay (h : s.Sound o) (display : Display) :
    ({ s with display } : Session).Sound o :=
  ⟨h.board, h.children, h.fits, h.descriptors, h.misused, h.wakeup,
    ⟨h.ledger.toHandedOnce, h.ledger.exits, h.ledger.exitCode, h.ledger.finished⟩⟩

theorem Sound.showData (h : s.Sound o) (data : Bytes) : (s.showData data).2.Sound o :=
  (h.withDisplay _).present _

theorem Sound.showEnd (h : s.Sound o) : s.showEnd.2.Sound o :=
  (h.withDisplay _).present _

/-- What a drain leaves on the board: the job at the cursor is known to be drained, and at the end
of its output the cursor has moved on. -/
theorem Sound.board_drain (h : s.Sound o) (hj : (j : Int) = s.board.current)
    (hlt : s.board.current < s.board.next) :
    (s.drain j).2.board = (s.began j).board ∨
      (s.drain j).2.board = ((s.began j).closed j o).board := by
  obtain ⟨c, hc⟩ := h.child_of_lt (j := j) (by omega)
  rcases h.drain_cases hj hlt hc with ⟨e, heq, -⟩ | ⟨-, heq⟩ | ⟨-, -, heq⟩
  all_goals rw [heq]
  · exact .inl rfl
  · exact .inl (board_present _ _)
  · exact .inr (board_present _ _)

theorem Sound.drain (h : s.Sound o) (hj : (j : Int) = s.board.current)
    (hlt : s.board.current < s.board.next) : (s.drain j).2.Sound o := by
  obtain ⟨c, hc⟩ := h.child_of_lt (j := j) (by omega)
  have hbegan := h.began hj
  rcases h.drain_cases hj hlt hc with ⟨e, heq, -⟩ | ⟨-, heq⟩ | ⟨hwait, hheld, heq⟩
  all_goals rw [heq]
  · exact hbegan
  · exact (hbegan.taken hj).showData _
  · exact (hbegan.closed hj hlt hc hwait hheld).showEnd

end Session

end OrderedJobs
