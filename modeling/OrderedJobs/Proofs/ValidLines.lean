import OrderedJobs.Proofs.ChildOutput
import OrderedJobs.Proofs.Copying
import OrderedJobs.Proofs.Termination

/-! # Runs over valid lines

What becomes of each child is settled before the run begins (`promised_of_reached`).  If the lines
of a stream are all commands, the jobs of a run are those lines, one after the other
(`Run.Foreseen`).  That holds as long as steps succeed (`foreseen_of_reached`), whatever makes them
fail otherwise; and if no call of the parent fails, they all succeed (`Foreseen.step_spared`) and
the run returns (`returns_of_spared`).  So when the run is done there is a child for every line, and
a property of it that was foreseen (`Foreseen.map_eq`). -/

namespace OrderedJobs

/-- A line, without its terminator, that is a command when led by `leading`. -/
structure Line.Valid (leading : Command) (text : Bytes) : Prop where
  whole : Bytes.newline ∉ text
  short : text.length < Line.maxLength
  few : leading.length + (Line.words text).length ≤ Line.maxArguments

instance (leading : Command) (text : Bytes) : Decidable (Line.Valid leading text) :=
  decidable_of_iff (Bytes.newline ∉ text ∧ text.length < Line.maxLength ∧
      leading.length + (Line.words text).length ≤ Line.maxArguments)
    ⟨fun ⟨hw, hs, hf⟩ => ⟨hw, hs, hf⟩, fun ⟨hw, hs, hf⟩ => ⟨hw, hs, hf⟩⟩

theorem Line.command_line (leading : Command) (text : Bytes) :
    Line.command leading (text ++ [Bytes.newline]) =
      if maxArguments < leading.length + (words text).length then .error .tooManyArguments
      else .ok (leading ++ words text) := by
  unfold Line.command
  rw [Bytes.endsLine_append_singleton, beq_self_eq_true, Bool.not_true, if_neg (by decide),
    List.dropLast_concat]

/-! ### Reading valid lines -/

namespace Source

/-- The stream of some lines. -/
def ofLines (texts : List Bytes) : Bytes := texts.flatMap (· ++ [Bytes.newline])

theorem splitLine_go_line {text : Bytes} (hw : Bytes.newline ∉ text) (rest : Bytes) {n : Nat}
    (hn : text.length < n) (line : Bytes) : splitLine.go n (text ++ Bytes.newline :: rest) line =
      (line.reverse ++ (text ++ [Bytes.newline]), rest) := by
  induction text generalizing n line with
  | nil =>
      obtain ⟨n, rfl⟩ := Nat.exists_eq_succ_of_ne_zero (by simp at hn; omega : n ≠ 0)
      show splitLine.go (n + 1) (Bytes.newline :: rest) line = _
      rw [splitLine.go, if_pos rfl, List.reverse_cons]
      rfl
  | cons b text ih =>
      obtain ⟨n, rfl⟩ := Nat.exists_eq_succ_of_ne_zero (by simp at hn; omega : n ≠ 0)
      rw [List.mem_cons, not_or] at hw
      have hb : ¬ b = Bytes.newline := fun heq => hw.1 heq.symm
      show splitLine.go (n + 1) (b :: (text ++ Bytes.newline :: rest)) line = _
      rw [splitLine.go, if_neg hb, ih hw.2 (Nat.lt_of_succ_lt_succ hn), List.reverse_cons,
        List.append_assoc]
      rfl

variable {s : Source} {leading : Command} {text rest : Bytes}

theorem pull_nil (leading : Command) (hclosed : s.closed = false) (hrest : s.rest = []) :
    s.pull leading = (.exhausted, { s with closed := true }) := by
  unfold pull
  rw [hclosed, hrest]
  rfl

theorem pull_split (leading : Command) {line : Bytes} (hclosed : s.closed = false)
    (hne : line ≠ []) (hsplit : splitLine Line.maxLength s.rest = (line, rest)) :
    s.pull leading =
      match Line.command leading line with
      | .ok c => (.command c, { s with rest := rest, position := s.position + line.length })
      | .error fault => (.refused fault line, ⟨rest, s.position + line.length, true⟩) := by
  unfold pull
  rw [hclosed, if_neg (by decide), hsplit]
  split
  · next heq =>
      cases heq
      exact absurd rfl hne
  · next heq =>
      cases heq
      rfl

theorem pull_whole (leading : Command) (hclosed : s.closed = false)
    (hrest : s.rest = text ++ Bytes.newline :: rest) (hw : Bytes.newline ∉ text)
    (hlen : text.length < Line.maxLength) : s.pull leading =
      if Line.maxArguments < leading.length + (Line.words text).length then
        (.refused .tooManyArguments (text ++ [Bytes.newline]),
          ⟨rest, s.position + (text ++ [Bytes.newline]).length, true⟩)
      else (.command (leading ++ Line.words text), { s with
        rest := rest, position := s.position + (text ++ [Bytes.newline]).length }) := by
  have hsplit : splitLine Line.maxLength s.rest = (text ++ [Bytes.newline], rest) := by
    rw [hrest]
    exact splitLine_go_line hw rest hlen []
  rw [pull_split leading hclosed (List.concat_ne_nil _ _) hsplit, Line.command_line]
  by_cases hmany : Line.maxArguments < leading.length + (Line.words text).length
  · rw [if_pos hmany, if_pos hmany]
  · rw [if_neg hmany, if_neg hmany]

theorem pull_line (hv : Line.Valid leading text) (hclosed : s.closed = false)
    (hrest : s.rest = text ++ Bytes.newline :: rest) :
    s.pull leading = (.command (leading ++ Line.words text), { s with
      rest := rest, position := s.position + (text ++ [Bytes.newline]).length }) := by
  rw [pull_whole leading hclosed hrest hv.whole hv.short, if_neg (Nat.not_lt.2 hv.few)]

end Source

namespace Run

variable {α : Type} {f : Child → α} {B : Nat → Command → α} {r r' r₀ : Run} {texts : List Bytes}

/-! ### Promises -/

/-- A child that is just born will have the property that is said of it, once all that happens in a
run that begins with `r₀` has happened. -/
def Newborns (f : Child → α) (B : Nat → Command → α) (r₀ : Run) : Prop :=
  ∀ (h : Host) (pipe : Nat) (command : Command), h.platform = r₀.session.host.platform →
    f (r₀.session.host.rounds.flatten.foldl (Child.undergo h.children.length)
      (h.newChild pipe command (r₀.echo command))) = B h.children.length command

/-- Every child of a run that began with `r₀` will have the property that is said of it. -/
def Promised (f : Child → α) (B : Nat → Command → α) (r₀ r : Run) : Prop :=
  r.session.host.Promises f B r₀.session.host.rounds.flatten r.session.host.rounds.flatten

theorem Fixed.echo (hf : Fixed r₀ r) (command : Command) : r.echo command = r₀.echo command := by
  unfold Run.echo
  rw [hf.quiet, hf.progress]

theorem Promised.launched (hp : Promised f B r₀ r) (hf : Fixed r₀ r) (hnew : Newborns f B r₀)
    (source : Source) (command : Command) : Promised f B r₀ { r with
      source
      session := r.session.launched command (r₀.echo command) } := by
  let grown := r.session.host.opened.grown r.session.host.pipes command (r₀.echo command)
  have hopened : r.session.host.opened.Promises f B r₀.session.host.rounds.flatten
      r.session.host.rounds.flatten := ⟨hp.born, hp.unborn⟩
  have hgrown : grown.Promises f B r₀.session.host.rounds.flatten grown.rounds.flatten := by
    rw [Host.rounds_grown]
    exact hopened.grown (hnew r.session.host.opened _ command hf.platform)
  exact ⟨hgrown.born, hgrown.unborn⟩

theorem Promised.wait (hp : Promised f B r₀ r) (hl : Child.Lasting f) (hs : r.Steady)
    (hphase : r.session.board.phase = .waiting) : Promised f B r₀ r.wait.2 := by
  obtain ⟨-, hhandled, -⟩ := hs.sound.wait hs.announced hphase
  show r.session.wait.2.host.Promises f B _ r.session.wait.2.host.rounds.flatten
  rw [hhandled.host.rounds]
  exact (Host.Promises.poll hl hp _ hs.sound.watch_eq).handled hl hhandled.host

theorem Promised.step (hp : Promised f B r₀ r) (hl : Child.Lasting f) (hnew : Newborns f B r₀)
    (hs : r.Steady) (hf : Fixed r₀ r) {kind : StepKind}
    (hstep : r.step = some (kind, .ok (), r')) : Promised f B r₀ r' := by
  cases hs.stepping hstep with
  | exhausted => exact hp
  | launched command source =>
      rw [hf.echo]
      exact hp.launched hf hnew source command
  | waited hphase hwait =>
      have hpromised := hp.wait hl hs hphase
      unfold Run.wait at hpromised
      rw [hwait] at hpromised
      exact hpromised

/-! ### Steps without faults -/

/-- If no call of the parent fails, a step fails on a line that is refused and on nothing else. -/
theorem Steady.step_spared (hs : r.Steady) (hspare : r.session.host.platform.faults.SpareParent)
    {kind : StepKind} {result : Except Failure Unit} (hstep : r.step = some (kind, result, r')) :
    result = .ok () ∨ ∃ fault line source, result = .error (.badLine fault line) ∧
      r.session.board.phase = .filling ∧
      r.source.pull r.leading = (.refused fault line, source) := by
  cases hs.stepping hstep with
  | exhausted | launched => exact .inl rfl
  | refused fault line source hphase hpull => exact .inr ⟨fault, line, source, rfl, hphase, hpull⟩
  | noPipe e command source hphase hpull hfault =>
      rw [hspare.pipe] at hfault
      cases hfault
  | noChild e command source hphase hpull hfault =>
      rw [hspare.fork] at hfault
      cases hfault
  | waited hphase hwait =>
      have hok := hs.sound.wait_spared hs.announced hphase hspare
      rw [hwait] at hok
      exact .inl hok

theorem execute_cases_spared (hspare : r₀.session.host.platform.faults.SpareParent) :
    ∃ n : Notifier,
      (∃ last kind e final visits, Reached r₀ last ∧ last.step = some (kind, .error e, final) ∧
        r₀.execute = ⟨.error e, visits, (final.onSession Session.abandon).onHost n.remove⟩) ∨
      ∃ final visits, Reached r₀ final ∧ final.step = none ∧
        r₀.execute = ⟨(final.onHost n.remove).conclude.1, visits,
          (final.onHost n.remove).conclude.2⟩ := by
  rcases r₀.execute_cases with ⟨e, host, hinstall, -⟩ | ⟨n, host, -, hend⟩
  · obtain ⟨hfault, -⟩ := Notifier.install_error hinstall
    rw [hspare.pipe] at hfault
    cases hfault
  · exact ⟨n, hend⟩

/-! ### The invariant -/

/-- What links a run over some lines to these lines: what was launched are the first of them, what
is left of the stream are the others, and every child will have a property that is said of it. -/
structure Foreseen (f : Child → α) (B : Nat → Command → α) (r₀ : Run) (texts : List Bytes)
    (r : Run) : Prop where
  promises : r.session.host.Promises f B r₀.session.host.rounds.flatten
    r.session.host.rounds.flatten
  commands : ∀ (i : Nat) (c : Child), r.session.host.children[i]? = some c →
    ∃ text, texts[i]? = some text ∧ c.command = r₀.leading ++ Line.words text
  source : r.session.board.exhausted = false → r.source.closed = false ∧
    r.source.rest = Source.ofLines (texts.drop r.session.host.children.length)
  exhausted : r.session.board.exhausted = true → texts.length ≤ r.session.host.children.length

theorem Foreseen.length_le (h : Foreseen f B r₀ texts r) :
    r.session.host.children.length ≤ texts.length := by
  rcases Nat.eq_zero_or_pos r.session.host.children.length with hzero | hpos
  · omega
  · have hlast : r.session.host.children.length - 1 < r.session.host.children.length := by omega
    obtain ⟨text, htext, -⟩ := h.commands _ _ (List.getElem?_eq_getElem hlast)
    have := (List.getElem?_eq_some_iff.1 htext).1
    omega

theorem Foreseen.pull_cases (h : Foreseen f B r₀ texts r) (hf : Fixed r₀ r)
    (hvalid : ∀ text ∈ texts, Line.Valid r₀.leading text)
    (hex : r.session.board.exhausted = false) :
    (texts.length ≤ r.session.host.children.length ∧
      ∃ source, r.source.pull r.leading = (.exhausted, source)) ∨
    ∃ text source, texts[r.session.host.children.length]? = some text ∧ source.closed = false ∧
      source.rest = Source.ofLines (texts.drop (r.session.host.children.length + 1)) ∧
      r.source.pull r.leading = (.command (r₀.leading ++ Line.words text), source) := by
  obtain ⟨hclosed, hrest⟩ := h.source hex
  rcases hdrop : texts.drop r.session.host.children.length with _ | ⟨text, rest⟩
  · left
    rw [hdrop] at hrest
    exact ⟨List.drop_eq_nil_iff.1 hdrop, _, Source.pull_nil r.leading hclosed hrest⟩
  · right
    have htext : texts[r.session.host.children.length]? = some text := by
      have := congrArg List.head? hdrop
      rw [List.head?_drop] at this
      exact this
    have hnext : texts.drop (r.session.host.children.length + 1) = rest := by
      rw [← List.drop_drop, hdrop]
      rfl
    have hline : r.source.rest = text ++ Bytes.newline :: Source.ofLines rest := by
      rw [hrest, hdrop]
      show (text ++ [Bytes.newline]) ++ _ = _
      rw [List.append_assoc]
      rfl
    rw [hf.leading, Source.pull_line (hvalid text (List.mem_of_getElem? htext)) hclosed hline]
    exact ⟨text, { r.source with rest := Source.ofLines rest, position := _ }, htext, hclosed,
      by rw [hnext], rfl⟩

/-- The next line is launched: its newborn child promises what it should. -/
theorem Foreseen.launched (h : Foreseen f B r₀ texts r) (hf : Fixed r₀ r)
    (hnew : Newborns f B r₀) {text : Bytes} {source : Source}
    (hex : r.session.board.exhausted = false)
    (htext : texts[r.session.host.children.length]? = some text) (hclosed : source.closed = false)
    (hrest : source.rest = Source.ofLines (texts.drop (r.session.host.children.length + 1))) :
    let command := r₀.leading ++ Line.words text
    Foreseen f B r₀ texts { r with
      source
      session := r.session.launched command (r₀.echo command) } := by
  intro command
  constructor
  case promises => exact Promised.launched h.promises hf hnew source command
  case commands =>
    intro i c' hc'
    rcases Host.grown_cases (h := r.session.host.opened) hc' with ⟨c, hc, hl⟩ | ⟨hi, hl⟩
    · rw [hl.command]
      exact h.commands i c hc
    · rw [hi, hl.command]
      exact ⟨text, htext, rfl⟩
  case source =>
    intro _
    refine ⟨hclosed, ?_⟩
    show source.rest = Source.ofLines (texts.drop (Host.grown _ _ _ _).children.length)
    rw [Host.length_grown]
    exact hrest
  case exhausted =>
    intro htrue
    rw [show r.session.board.exhausted = true from htrue] at hex
    cases hex

theorem Foreseen.wait (h : Foreseen f B r₀ texts r) (hl : Child.Lasting f) (hs : r.Steady)
    (hphase : r.session.board.phase = .waiting) : Foreseen f B r₀ texts r.wait.2 := by
  obtain ⟨-, hhandled, -, -⟩ := hs.sound.wait hs.announced hphase
  have hlater := hs.sound.later_polled
  have hlength : r.session.wait.2.host.children.length = r.session.host.children.length :=
    hhandled.host.length.trans hlater.length
  have hexhausted : r.session.wait.2.board.exhausted = r.session.board.exhausted :=
    hhandled.exhausted
  refine ⟨Promised.wait h.promises hl hs hphase, ?_, ?_, ?_⟩
  · intro i c'' hc''
    obtain ⟨c', hc', hd⟩ := hhandled.host.child i c'' hc''
    obtain ⟨c, hc, hlc⟩ := hlater.child_before hc'
    rw [hd.command, hlc.command]
    exact h.commands i c hc
  · show r.session.wait.2.board.exhausted = false → r.source.closed = false ∧
      r.source.rest = Source.ofLines (texts.drop r.session.wait.2.host.children.length)
    rw [hexhausted, hlength]
    exact h.source
  · show r.session.wait.2.board.exhausted = true →
      texts.length ≤ r.session.wait.2.host.children.length
    rw [hexhausted, hlength]
    exact h.exhausted

/-- What is foreseen of a run is so after every step that succeeds. -/
theorem Foreseen.step (h : Foreseen f B r₀ texts r) (hl : Child.Lasting f)
    (hnew : Newborns f B r₀) (hvalid : ∀ text ∈ texts, Line.Valid r₀.leading text)
    (hs : r.Steady) (hf : Fixed r₀ r) {kind : StepKind}
    (hstep : r.step = some (kind, .ok (), r')) : Foreseen f B r₀ texts r' := by
  cases hs.stepping hstep with
  | exhausted source hphase hpull =>
      rcases h.pull_cases hf hvalid (phase_filling hphase) with
        ⟨hle, -⟩ | ⟨text, source', -, -, -, hpull'⟩
      · exact ⟨h.promises, h.commands, fun hfalse => (by cases hfalse), fun _ => hle⟩
      · rw [hpull'] at hpull
        cases hpull
  | launched command source hphase hpull =>
      have hex := phase_filling hphase
      rcases h.pull_cases hf hvalid hex with
        ⟨-, source', hpull'⟩ | ⟨text, source', htext, hclosed, hrest, hpull'⟩
      · rw [hpull'] at hpull
        cases hpull
      · rw [hpull'] at hpull
        cases hpull
        rw [hf.echo]
        exact h.launched hf hnew hex htext hclosed hrest
  | waited hphase hwait =>
      have hforeseen := h.wait hl hs hphase
      unfold Run.wait at hforeseen
      rw [hwait] at hforeseen
      exact hforeseen

theorem Foreseen.step_spared (h : Foreseen f B r₀ texts r)
    (hvalid : ∀ text ∈ texts, Line.Valid r₀.leading text)
    (hspare : r₀.session.host.platform.faults.SpareParent) (hs : r.Steady) (hf : Fixed r₀ r)
    {kind : StepKind} {result : Except Failure Unit} (hstep : r.step = some (kind, result, r')) :
    result = .ok () := by
  rcases hs.step_spared (hf.platform ▸ hspare) hstep with
    hok | ⟨fault, line, source, -, hphase, hpull⟩
  · exact hok
  · rcases h.pull_cases hf hvalid (phase_filling hphase) with
      ⟨-, source', hpull'⟩ | ⟨text, source', -, -, -, hpull'⟩
    all_goals
      rw [hpull'] at hpull
      cases hpull

/-- When a run is done there is a child for every line, and a property of it that the events to come
do not change is the one that is said of it. -/
theorem Foreseen.map_eq (h : Foreseen f B r₀ texts r) (hdone : r.step = none) {g : Child → α}
    (hg : ∀ (i : Nat) (c : Child), r.session.host.children[i]? = some c →
      g c = f (r.session.host.rounds.flatten.foldl (Child.undergo i) c)) :
    r.session.host.children.map g =
      texts.mapIdx fun i text => B i (r₀.leading ++ Line.words text) := by
  obtain ⟨hex, -, -⟩ := done_of_step_none hdone
  have hlength : r.session.host.children.length = texts.length :=
    Nat.le_antisymm h.length_le (h.exhausted hex)
  refine List.ext_getElem? fun i => ?_
  rw [List.getElem?_map, List.getElem?_mapIdx]
  cases hc : r.session.host.children[i]? with
  | none =>
      rw [getElem?_eq_none_of_length hlength hc]
      rfl
  | some c =>
      obtain ⟨text, htext, hcommand⟩ := h.commands i c hc
      rw [htext, Option.map_some, Option.map_some, hg i c hc, h.promises.born i c hc, hcommand]

theorem conclude_spared (h : r.session.host.platform.faults.SpareParent) :
    ∃ code, r.conclude.1 = .ok code := by
  have hok := r.session.present_ok r.session.display.onFinish h.write
  unfold conclude
  split
  · next e s hs =>
      rw [show r.session.present _ = _ from hs] at hok
      cases hok
  · exact ⟨_, rfl⟩

section fresh

variable {c : Config} {limits : Limits} {p : Platform} {rounds : List (List Event)}
  {handler : Handler}

theorem promised_of_reached {stream : Bytes} (hl : Child.Lasting f)
    (hnew : Newborns f B (prepare c limits (Host.fresh p rounds handler) stream))
    (h : Reached (prepare c limits (Host.fresh p rounds handler) stream) r) :
    Promised f B (prepare c limits (Host.fresh p rounds handler) stream) r := by
  induction h with
  | start hn =>
      obtain ⟨-, rfl⟩ := Notifier.install_ok hn
      exact ⟨fun i c hc => (by cases hc), fun i _ => rfl⟩
  | step hr hs ih =>
      obtain ⟨hsteady, hfixed⟩ := steady_of_reached hr
      exact ih.step hl hnew hsteady hfixed hs

theorem foreseen_of_reached (hl : Child.Lasting f)
    (hvalid : ∀ text ∈ texts, Line.Valid c.leading text)
    (hnew : Newborns f B (prepare c limits (Host.fresh p rounds handler) (Source.ofLines texts)))
    (h : Reached (prepare c limits (Host.fresh p rounds handler) (Source.ofLines texts)) r) :
    let r₀ := prepare c limits (Host.fresh p rounds handler) (Source.ofLines texts)
    Foreseen f B r₀ texts r := by
  intro r₀
  induction h with
  | start hn =>
      obtain ⟨-, rfl⟩ := Notifier.install_ok hn
      exact ⟨⟨fun i c hc => (by cases hc), fun i _ => rfl⟩, fun i c hc => (by cases hc),
        fun _ => ⟨rfl, rfl⟩, fun hex => (by cases hex)⟩
  | step hr hs ih =>
      obtain ⟨hsteady, hfixed⟩ := steady_of_reached hr
      exact ih.step hl hnew hvalid hsteady hfixed hs

/-- If no call of the parent fails, a run over valid lines returns. -/
theorem returns_of_spared (hvalid : ∀ text ∈ texts, Line.Valid c.leading text)
    (hspare : p.faults.SpareParent) : ∃ code, (prepare c limits (Host.fresh p rounds handler)
      (Source.ofLines texts)).execute.outcome = .ok code := by
  let r₀ := prepare c limits (Host.fresh p rounds handler) (Source.ofLines texts)
  obtain ⟨n, hend⟩ := r₀.execute_cases_spared hspare
  rcases hend with ⟨last, kind, e, final, visits, hr, hs, -⟩ | ⟨done, visits, hr, -, heq⟩
  · obtain ⟨hsteady, hfixed⟩ := steady_of_reached hr
    -- Here it matters only which lines were read, so nothing is said of the children.
    have hforeseen : Foreseen (fun _ => ()) (fun _ _ => ()) r₀ texts last :=
      foreseen_of_reached ⟨fun _ => rfl, fun _ _ => rfl, fun _ _ => rfl⟩ hvalid
        (fun _ _ _ _ => rfl) hr
    cases hforeseen.step_spared hvalid hspare hsteady hfixed hs
  · obtain ⟨-, hfixed⟩ := steady_of_reached hr
    rw [show (prepare _ _ _ _).execute = _ from heq]
    apply conclude_spared
    obtain ⟨descriptors, misused, hframe⟩ := n.remove_frame done.session.host
    show (n.remove done.session.host).platform.faults.SpareParent
    rw [hframe, show done.session.host.platform = p from hfixed.platform]
    exact hspare

end fresh

end Run

end OrderedJobs
