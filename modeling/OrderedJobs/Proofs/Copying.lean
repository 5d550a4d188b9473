import OrderedJobs.Proofs.WaitRule

/-! # Copying

What a write puts out is a part of its data, and all of it unless it fails (`Host.writeAll_output`).
So without progress notes the output is exactly what was taken from the pipes, child by child in the
order of their creation (`Session.Copied`): a drain takes from the pipe of the job at the cursor,
and nothing was taken from the pipes behind it yet.  A call that fails may lose the end of the chunk
in hand, and no more than that (`Session.CutShort`).

As long as no call of the parent fails, everything it does about its children succeeds, however
short its writes are (`Sound.wait_spared`). -/

namespace OrderedJobs

/-- No call of the parent fails; writes may still be short. -/
structure Faults.SpareParent (f : Faults) : Prop where
  pipe : f.pipe = none
  fork : f.fork = none
  write : f.write = none
  read : f.read = none
  lost : f.lost = []

/-! ### Writing -/

namespace Display

variable {d : Display}

theorem onData_eq (h : d.progress = false) (data : Bytes) (finished started : Int) :
    d.onData data finished started = ([.job data], d) := by
  unfold onData
  rw [h]
  rfl

theorem onEnd_eq (h : d.progress = false) : d.onEnd = ([], d) := by
  unfold onEnd
  rw [h]
  rfl

theorem onReaped_eq (h : d.progress = false) (finished started : Int) :
    d.onReaped finished started = [] := by
  unfold onReaped
  rw [h]
  rfl

theorem onFinish_eq (h : d.progress = false) : d.onFinish = [] := by
  unfold onFinish
  rw [h]
  rfl

end Display

namespace Host

variable {h h' : Host}

theorem output_congr (haccepted : h'.accepted = h.accepted) : h'.output = h.output := by
  unfold output
  rw [haccepted]

theorem takes_append_drop (h : Host) (data : Bytes) :
    h.takes data ++ data.drop (h.takes data).length = data := by
  unfold takes
  cases h.platform.faults.writeCap with
  | none => simp
  | some cap =>
      dsimp only
      rw [List.length_take]
      rcases Nat.le_total cap data.length with hle | hle
      · rw [Nat.min_eq_left hle, List.take_append_drop]
      · rw [Nat.min_eq_right hle, List.drop_length, List.take_of_length_le hle, List.append_nil]

/-- A write of some data puts out a part of it: all of it, unless it fails. -/
theorem writeAll_output (data : Bytes) (h : Host) : ∃ part rest, data = part ++ rest ∧
    (writeAll data h).2.output = h.output ++ part ∧
    ((writeAll data h).1 = .ok () → rest = []) := by
  fun_induction writeAll data h with
  | case1 h => exact ⟨[], [], rfl, (List.append_nil _).symm, fun _ => rfl⟩
  | case2 data h hd e h' hwrite =>
      refine ⟨[], data, rfl, ?_, fun hok => by cases hok⟩
      unfold write at hwrite
      dsimp only at hwrite
      split at hwrite
      · cases hwrite
        exact (List.append_nil _).symm
      · cases hwrite
  | case3 data h hd n h' hwrite ih =>
      unfold write at hwrite
      dsimp only at hwrite
      split at hwrite
      · cases hwrite
      · cases hwrite
        obtain ⟨part, rest, hdata, hout, hok⟩ := ih
        refine ⟨h.takes data ++ part, rest, ?_, ?_, hok⟩
        · rw [List.append_assoc, ← hdata, h.takes_append_drop]
        · rw [hout]
          simp [output]

theorem writeAll_ok (data : Bytes) (h : Host) (hw : h.platform.faults.write = none) :
    (writeAll data h).1 = .ok () := by
  fun_induction writeAll data h with
  | case1 h => rfl
  | case2 data h hd e h' hwrite =>
      unfold write at hwrite
      rw [hw] at hwrite
      cases hwrite
  | case3 data h hd n h' hwrite ih =>
      unfold write at hwrite
      rw [hw] at hwrite
      cases hwrite
      exact ih hw

theorem Later.map_passed (hl : h.Later h') :
    h'.children.map Child.passed = h.children.map Child.passed :=
  hl.map_eq fun _ _ hlc => hlc.passed

end Host

namespace Session

variable {s s' : Session} {o : Holdings} {j : Nat}

theorem present_nil (s : Session) : s.present [] = (.ok (), s) := by
  unfold present
  rw [List.flatMap_nil, Host.writeAll]
  rfl

/-- What is presented reaches the output in part, and as a whole unless the presentation fails. -/
theorem present_output (s : Session) (segments : List Segment) : ∃ part rest,
    segments.flatMap Segment.bytes = part ++ rest ∧
    (s.present segments).2.host.output = s.host.output ++ part ∧
    ((s.present segments).1 = .ok () → rest = []) := by
  obtain ⟨part, rest, hparts, hout, hok⟩ :=
    Host.writeAll_output (segments.flatMap Segment.bytes) s.host
  refine ⟨part, rest, hparts, ?_⟩
  unfold present
  split
  · next heq =>
      rw [heq] at hout
      exact ⟨hout, fun hfail => by cases hfail⟩
  · next heq =>
      rw [heq] at hout hok
      exact ⟨hout, fun _ => hok rfl⟩

theorem present_ok (s : Session) (segments : List Segment)
    (hw : s.host.platform.faults.write = none) : (s.present segments).1 = .ok () := by
  have hok := Host.writeAll_ok (segments.flatMap Segment.bytes) s.host hw
  unfold present
  split
  · next e h heq =>
      rw [heq] at hok
      cases hok
  · rfl

/-- The output is what was taken from the pipes, child by child. -/
def Copied (s : Session) : Prop := s.host.output = s.host.children.flatMap Child.passed

theorem Copied.congr (h : s.Copied) (haccepted : s'.host.accepted = s.host.accepted)
    (hpassed : s'.host.children.map Child.passed = s.host.children.map Child.passed) :
    s'.Copied := by
  unfold Copied Host.output at *
  rw [haccepted, h, List.flatMap_def, List.flatMap_def, hpassed]

/-- A call has failed: of the data that it took from a pipe, one chunk at most, the output lacks a
suffix, and it lacks nothing unless it was a write that failed. -/
def CutShort (s : Session) (e : Failure) (s' : Session) : Prop :=
  ∃ data lost, lost <:+ data ∧ data.length ≤ chunk ∧
    s.host.output ++ data = s'.host.children.flatMap Child.passed ∧
    s'.host.output ++ lost = s'.host.children.flatMap Child.passed ∧
    ((∀ error, e ≠ .system .write error) → lost = [])

/-- A call that took nothing from a pipe and showed nothing has lost nothing. -/
theorem Copied.cutShort (h : s.Copied) (haccepted : s'.host.accepted = s.host.accepted)
    (hpassed : s'.host.children.map Child.passed = s.host.children.map Child.passed)
    (e : Failure) : s.CutShort e s' := by
  have hc := h.congr haccepted hpassed
  have hout := Host.output_congr haccepted
  refine ⟨[], [], List.suffix_refl _, Nat.zero_le _, ?_, ?_, fun _ => rfl⟩
  · rw [List.append_nil, ← hout, hc]
  · rw [List.append_nil, hc]

theorem CutShort.of_eq {t : Session} {e : Failure} (h : t.CutShort e s')
    (haccepted : t.host.accepted = s.host.accepted) : s.CutShort e s' := by
  unfold CutShort at *
  rw [← Host.output_congr haccepted]
  exact h

/-! ### Reaping -/

/-- What does not tell whether a child was collected stays as it is. -/
theorem Reaping.map_eq {β : Type} (h : Reaping s s') {f : Child → β}
    (hf : ∀ c, f { c with collected := true } = f c) :
    s'.host.children.map f = s.host.children.map f := by
  refine map_eq_of_getElem? h.length fun i c' hc' => ?_
  obtain ⟨c, hc, rfl | rfl⟩ := h.child i c' hc'
  · exact ⟨_, hc, rfl⟩
  · exact ⟨c, hc, hf c⟩

/-- A reaping neither shows anything nor reads from a pipe. -/
theorem Sound.reap_frame (h : s.Sound o) : s.reap.2.host.accepted = s.host.accepted ∧
    s.reap.2.host.children.map Child.passed = s.host.children.map Child.passed ∧
    s.reap.2.display = s.display := by
  obtain ⟨-, hreap, -⟩ := h.reap
  have htake := h.takeNotices_eq
  refine ⟨?_, ?_, ?_⟩
  · rw [hreap.host, htake]
  · rw [hreap.map_eq fun _ => rfl, htake]
  · rw [hreap.display, htake]

theorem Sound.handleNotices_eq (h : s.Sound o) (hprogress : s.display.progress = false) :
    s.handleNotices = (s.reap.1.map fun _ => (), s.reap.2) := by
  obtain ⟨-, -, hdisplay⟩ := h.reap_frame
  unfold Session.handleNotices
  generalize s.reap = x at hdisplay ⊢
  obtain ⟨e | _ | ⟨i, js⟩, t⟩ := x
  · rfl
  · rfl
  · have hdisplay : t.display = s.display := hdisplay
    dsimp only
    unfold noteReaped
    rw [hdisplay, Display.onReaped_eq hprogress, present_nil]
    rfl

/-! ### Draining -/

theorem showData_eq (hprogress : s.display.progress = false) (data : Bytes) :
    s.showData data = s.present [.job data] := by
  unfold Session.showData
  rw [Display.onData_eq hprogress]

theorem showEnd_eq (hprogress : s.display.progress = false) : s.showEnd = (.ok (), s) := by
  unfold Session.showEnd
  rw [Display.onEnd_eq hprogress]
  exact s.present_nil

/-- Without progress, what a drain takes from the pipe reaches the output, or all but the end of it
if the drain fails. -/
theorem Sound.drain_copied (h : s.Sound) (hprogress : s.display.progress = false)
    (hj : (j : Int) = s.board.current) (hlt : s.board.current < s.board.next) (hc : s.Copied) :
    Yields Copied s.CutShort (s.drain j) := by
  obtain ⟨c, hchild⟩ := h.child_of_lt (j := j) (by omega)
  rcases h.drain_cases hj hlt hchild with ⟨e, heq, -⟩ | ⟨-, heq⟩ | ⟨-, -, heq⟩
  · rw [heq]
    exact hc.cutShort rfl rfl _
  · let t := (s.began j).taken j
    let data := c.waiting.take chunk
    rw [heq, show ((s.began j).taken j).showData _ = _ from t.showData_eq hprogress data]
    have htaken : t.host.children.flatMap Child.passed = s.host.output ++ data := by
      rw [hc]
      refine flatMap_modify_of_nil hchild rfl fun i c' hlt' hc' => ?_
      exact (h.fits i c' hc').unread (by omega)
    obtain ⟨part, rest, hparts, hout, hok⟩ := t.present_output [.job data]
    obtain ⟨accepted, calls, hframe⟩ := t.present_frame [.job data]
    have hpassed : (t.present [.job data]).2.host.children.flatMap Child.passed =
        s.host.output ++ data := by rw [hframe, ← htaken]
    have hdata : data = part ++ rest := by simpa [Segment.bytes] using hparts
    have hresult := t.present_result [.job data]
    have hout : (t.present [.job data]).2.host.output = s.host.output ++ part := hout
    generalize t.present [.job data] = x at hout hok hpassed hresult ⊢
    obtain ⟨_ | _, t'⟩ := x
    · refine ⟨data, rest, ⟨part, hdata.symm⟩, List.length_take_le _ _, hpassed.symm, ?_, ?_⟩
      · rw [hout, hpassed, hdata, List.append_assoc]
      · intro hne
        rcases hresult with hfail | ⟨error, herr⟩
        · cases hfail
        · cases herr
          exact absurd rfl (hne error)
    · have hnil := hok rfl
      rw [hnil, List.append_nil] at hdata
      show t'.host.output = _
      rw [hout, hpassed, hdata]
  · let t := (s.began j).closed j
    rw [heq, show ((s.began j).closed j).showEnd = _ from t.showEnd_eq hprogress]
    exact (hc.congr rfl rfl : t.Copied)

/-! ### Waiting and launching -/

theorem Copied.polled (hc : s.Copied) (h : s.Sound) : s.polled.Copied :=
  hc.congr h.later_polled.accepted h.later_polled.map_passed

/-- Without progress, a wait copies what it takes, or is cut short. -/
theorem Sound.wait_copied (h : s.Sound) (ha : s.host.Announced) (hphase : s.board.phase = .waiting)
    (hprogress : s.display.progress = false) (hc : s.Copied) :
    Yields Copied s.CutShort s.wait := by
  have hpolled := hc.polled h
  have haccepted : s.polled.host.accepted = s.host.accepted := h.later_polled.accepted
  have hprogress : s.polled.display.progress = false := hprogress
  refine h.wait_yields (P := fun t => t.Copied ∧ t.host.accepted = s.host.accepted ∧
    t.display.progress = false) ha hphase ⟨hpolled, haccepted, hprogress⟩ ?_ (fun t ht => ht.1) ?_
  · intro hsound
    obtain ⟨haccepted', hpassed', hdisplay'⟩ := hsound.reap_frame
    have hquiet := congrArg Prod.snd (hsound.handleNotices_eq hprogress)
    generalize s.polled.handleNotices = x at hquiet ⊢
    obtain ⟨e | _, t⟩ := x
    all_goals
      have ht : t = s.polled.reap.2 := hquiet
      subst ht
    · exact (hpolled.cutShort haccepted' hpassed' e).of_eq haccepted
    · refine ⟨hpolled.congr haccepted' hpassed', haccepted'.trans haccepted, ?_⟩
      rw [hdisplay', hprogress]
  · rintro t j hsound ⟨htc, htaccepted, htprogress⟩ hj hlt -
    have hd := hsound.drain_copied htprogress hj hlt htc
    generalize t.drain j = x at hd ⊢
    obtain ⟨e | _, t'⟩ := x
    · exact CutShort.of_eq hd htaccepted
    · exact hd

theorem Sound.handleNotices_spared (h : s.Sound o) (hspare : s.host.platform.faults.SpareParent) :
    s.handleNotices.1 = .ok () := by
  rcases h.handleNotices_cases with ⟨pid, j, -, hlost, -⟩ | heq | heq
  · rw [hspare.lost] at hlost
    exact absurd hlost List.not_mem_nil
  · rw [heq]
  · rw [heq]
    refine present_ok _ _ ?_
    obtain ⟨-, hreap, -⟩ := h.reap
    rw [(h.handled_takeNotices.trans hreap.handled).host.platform]
    exact hspare.write

theorem Sound.drain_spared (h : s.Sound o) (hspare : s.host.platform.faults.SpareParent)
    (hj : (j : Int) = s.board.current) (hlt : s.board.current < s.board.next)
    (hready : s.host.readable j = true) : (s.drain j).1 = .ok () := by
  obtain ⟨c, hchild⟩ := h.child_of_lt (j := j) (by omega)
  rcases h.drain_cases hj hlt hchild with ⟨e, -, hfault | hunready⟩ | ⟨-, heq⟩ | ⟨-, -, heq⟩
  · rw [hspare.read] at hfault
    cases hfault
  · rw [hunready] at hready
    cases hready
  · rw [heq]
    exact present_ok _ _ hspare.write
  · rw [heq]
    exact present_ok _ _ hspare.write

/-- If no call of the parent fails, a wait succeeds. -/
theorem Sound.wait_spared (h : s.Sound) (ha : s.host.Announced) (hphase : s.board.phase = .waiting)
    (hspare : s.host.platform.faults.SpareParent) : s.wait.1 = .ok () := by
  have hpolled : s.polled.host.platform.faults.SpareParent := by
    rw [h.later_polled.platform]
    exact hspare
  refine (h.wait_yields (P := fun t => t.host.platform.faults.SpareParent)
    (Q := fun _ => True) (F := fun _ _ => False) ha hphase hpolled ?_ (fun _ _ => trivial) ?_).ok
  · intro hsound
    obtain ⟨-, hhandled, -⟩ := hsound.handleNotices
    refine yields_of_ok (hsound.handleNotices_spared hpolled) ?_
    rw [hhandled.host.platform]
    exact hpolled
  · intro t j hsound ht hj hlt hready
    exact yields_of_ok (hsound.drain_spared ht hj hlt hready) trivial

theorem accepted_launched (s : Session) (command : Command) (echo : Option Bytes) :
    (s.launched command echo).host.accepted = s.host.accepted :=
  Host.grown_keeps (h := s.host.opened) Host.accepted (fun _ => rfl) rfl

theorem passed_launched (s : Session) (command : Command) (echo : Option Bytes) :
    (s.launched command echo).host.children.map Child.passed =
      s.host.children.map Child.passed ++ [[]] := by
  apply (Host.later_grown (h := s.host.opened)).map_passed.trans
  rw [Host.children_withChild, List.map_append]
  rfl

theorem Copied.launched (hc : s.Copied) (command : Command) (echo : Option Bytes) :
    (s.launched command echo).Copied := by
  unfold Copied Host.output at *
  rw [accepted_launched, hc, List.flatMap_def, List.flatMap_def, passed_launched,
    List.flatten_append]
  simp

end Session

end OrderedJobs
