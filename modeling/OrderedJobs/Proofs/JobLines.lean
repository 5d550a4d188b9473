import OrderedJobs.Proofs.OutputPrefix
import OrderedJobs.Proofs.ValidLines

/-! # Jobs and lines

The jobs of a run are the lines of its stream, whatever these are and whatever the operating system
does.  The lines are cut from the stream as a whole (`Source.lines`), and so are the words of a line
(`Line.words_eq`); a run reads them one by one and only when it launches.  While steps succeed, the
children are the first lines, what was read ends just behind the last of them, and a launch adds the
next line to both (`Run.Lined`).  When a run fails on a line, it is the first line without a child
(`Source.splitLine_lines`); when it returns, no line is left. -/

namespace OrderedJobs

/-! ### Words -/

namespace Line

/-- Reading a text from the right, the word in front and the words behind it are the pieces between
the spaces, less the empty ones. -/
theorem foldr_wordStep (text : Bytes) : ∃ piece pieces,
    text.splitOn Bytes.space = piece :: pieces ∧
      text.foldr wordStep ([], []) = (piece, pieces.filter (· ≠ [])) := by
  induction text with
  | nil => exact ⟨[], [], rfl, rfl⟩
  | cons b text ih =>
      obtain ⟨piece, pieces, hsplit, hfold⟩ := ih
      rw [List.splitOn_cons_eq_if_modifyHead, hsplit, List.foldr_cons, hfold]
      by_cases hb : b = Bytes.space
      · refine ⟨[], piece :: pieces, by simp [hb], ?_⟩
        cases piece <;> simp [wordStep, hb]
      · exact ⟨b :: piece, pieces, by simp [hb], by simp [wordStep, hb]⟩

/-- The words of a text are its non-empty pieces between spaces. -/
theorem words_eq (text : Bytes) : words text = (text.splitOn Bytes.space).filter (· ≠ []) := by
  obtain ⟨piece, pieces, hsplit, hfold⟩ := foldr_wordStep text
  unfold words
  rw [hfold, hsplit]
  cases piece <;> simp

/-- The command of a line: what leads every command, and then the non-empty pieces between the
spaces of the line. -/
def argv (leading : Command) (text : Bytes) : Command :=
  leading ++ (text.splitOn Bytes.space).filter (· ≠ [])

end Line

/-! ### Lines -/

namespace Source

variable {stream text rest : Bytes} {texts more : List Bytes} {n : Nat}

/-- The pieces of a stream between its terminators: the texts of its lines, and what follows the
last terminator. -/
def lines (stream : Bytes) : List Bytes := stream.splitOn Bytes.newline

/-- A line of a stream, with its terminator if it has one. -/
def line (stream : Bytes) (k : Nat) : Option Bytes :=
  (lines stream)[k]?.map fun text =>
    if k + 1 < (lines stream).length then text ++ [Bytes.newline] else text

theorem lines_ne_nil (stream : Bytes) : lines stream ≠ [] := List.splitOn_ne_nil _ _

theorem lines_cons (b : UInt8) (stream : Bytes) : lines (b :: stream) =
    if b = Bytes.newline then [] :: lines stream else (lines stream).modifyHead (b :: ·) := by
  unfold lines
  rw [List.splitOn_cons_eq_if_modifyHead]
  simp only [beq_iff_eq]

theorem lines_append_cons (hw : Bytes.newline ∉ text) (rest : Bytes) :
    lines (text ++ Bytes.newline :: rest) = text :: lines rest := by
  apply List.splitOnP_append_cons_of_forall_mem
  · intro b hb
    rw [beq_eq_false_iff_ne]
    rintro rfl
    exact hw hb
  · exact beq_self_eq_true _

theorem lines_ofLines_append (hw : ∀ text ∈ texts, Bytes.newline ∉ text) (rest : Bytes) :
    lines (ofLines texts ++ rest) = texts ++ lines rest := by
  induction texts with
  | nil => rfl
  | cons text texts ih =>
      have hcons : ofLines (text :: texts) ++ rest =
          text ++ Bytes.newline :: (ofLines texts ++ rest) := by
        simp [ofLines]
      rw [hcons, lines_append_cons (hw text List.mem_cons_self),
        ih fun t ht => hw t (List.mem_cons_of_mem _ ht), List.cons_append]

theorem length_lines (stream : Bytes) : (lines stream).length = stream.count Bytes.newline + 1 := by
  induction stream with
  | nil => rfl
  | cons b stream ih =>
      rw [lines_cons, List.count_cons]
      by_cases hb : b = Bytes.newline <;> simp [hb, ih]

/-! ### Reading a line -/

/-- What is split off a stream is its first line, or as much of it as is allowed. -/
theorem splitLine_go_lines (taken : Bytes) (h : lines stream = text :: more) :
    (splitLine.go n stream taken).1 = taken.reverse ++
      (if more = [] then text else text ++ [Bytes.newline]).take n := by
  induction n generalizing stream text taken with
  | zero => simp [splitLine.go]
  | succ n ih =>
      cases stream with
      | nil =>
          cases h
          simp [splitLine.go]
      | cons b stream =>
          rw [lines_cons] at h
          rw [splitLine.go]
          by_cases hb : b = Bytes.newline
          · rw [if_pos hb] at h
            obtain ⟨rfl, rfl⟩ := List.cons.inj h
            rw [if_pos hb, if_neg (lines_ne_nil stream), hb]
            simp
          · obtain ⟨text', more', hlines⟩ := List.exists_cons_of_ne_nil (lines_ne_nil stream)
            rw [if_neg hb, hlines, List.modifyHead_cons] at h
            cases h
            rw [if_neg hb, ih (b :: taken) hlines]
            split <;> simp

theorem splitLine_lines (h : lines stream = text :: more) (n : Nat) :
    (splitLine n stream).1 = (if more = [] then text else text ++ [Bytes.newline]).take n :=
  splitLine_go_lines [] h

theorem splitLine_ne_nil (n : Nat) (b : UInt8) (stream : Bytes) :
    (splitLine (n + 1) (b :: stream)).1 ≠ [] := by
  unfold splitLine
  rw [splitLine.go]
  split
  · simp
  · obtain ⟨text, more, hlines⟩ := List.exists_cons_of_ne_nil (lines_ne_nil stream)
    rw [splitLine_go_lines [b] hlines]
    simp

theorem endsLine_eq_false {b : Bytes} (h : Bytes.newline ∉ b) : b.endsLine = false := by
  rw [Bytes.endsLine, beq_eq_false_iff_ne]
  exact fun hlast => h (List.mem_of_getLast? hlast)

theorem not_endsLine {b : Bytes} (h : Bytes.newline ∉ b) : ¬ Bytes.endsLine b.reverse = true := by
  rw [endsLine_eq_false fun hmem => h (List.mem_reverse.1 hmem)]
  exact Bool.false_ne_true

theorem splitLine_go_whole (n : Nat) (stream : Bytes) {taken : Bytes}
    (hw : Bytes.newline ∉ taken) (hend : (splitLine.go n stream taken).1.endsLine = true) :
    ∃ text, Bytes.newline ∉ text ∧
      (splitLine.go n stream taken).1 = taken.reverse ++ (text ++ [Bytes.newline]) := by
  induction n generalizing stream taken with
  | zero => exact absurd hend (not_endsLine hw)
  | succ n ih =>
      cases stream with
      | nil => exact absurd hend (not_endsLine hw)
      | cons b stream =>
          rw [splitLine.go] at hend ⊢
          by_cases hb : b = Bytes.newline
          · rw [if_pos hb]
            exact ⟨[], List.not_mem_nil, by simp [hb]⟩
          · have hnot : ∀ l : Bytes, Bytes.newline ∉ l → Bytes.newline ∉ b :: l := by
              intro l hl hmem
              rcases List.mem_cons.1 hmem with heq | hmem
              · exact hb heq.symm
              · exact hl hmem
            rw [if_neg hb] at hend ⊢
            obtain ⟨text, htext, heq⟩ := ih stream (hnot taken hw) hend
            exact ⟨b :: text, hnot text htext, by rw [heq]; simp⟩

theorem splitLine_whole {line : Bytes} (hsplit : splitLine n stream = (line, rest))
    (hend : line.endsLine = true) : ∃ text, Bytes.newline ∉ text ∧
      line = text ++ [Bytes.newline] ∧ stream = text ++ Bytes.newline :: rest := by
  have happend := splitLine_append n stream
  rw [hsplit] at happend
  obtain ⟨text, hw, heq⟩ := splitLine_go_whole n stream List.not_mem_nil
    (by rw [show splitLine.go n stream [] = _ from hsplit]; exact hend)
  rw [show splitLine.go n stream [] = _ from hsplit] at heq
  have hline : line = text ++ [Bytes.newline] := heq
  refine ⟨text, hw, hline, ?_⟩
  rw [← happend, hline]
  simp

/-! ### Pulling a command -/

variable {s s' : Source} {leading command : Command}

/-- A pull that finds the end reads nothing, and nothing was left unless the source was closed. -/
theorem pull_exhausted (h : s.pull leading = (.exhausted, s')) :
    s'.rest = s.rest ∧ s'.position = s.position ∧ (s.closed = false → s.rest = []) := by
  unfold pull at h
  split at h
  · next hclosed =>
      cases h
      exact ⟨rfl, rfl, fun hopen => by rw [hopen] at hclosed; cases hclosed⟩
  · split at h
    · next rest hsplit =>
        cases h
        refine ⟨rfl, rfl, fun _ => ?_⟩
        cases hrest : s.rest with
        | nil => rfl
        | cons b stream =>
            rw [hrest] at hsplit
            exact absurd (congrArg Prod.fst hsplit) (splitLine_ne_nil 99998 b stream)
    · dsimp only at h
      split at h <;> cases h

theorem pull_refused {fault : LineFault} {line : Bytes}
    (h : s.pull leading = (.refused fault line, s')) :
    line = (splitLine Line.maxLength s.rest).1 := by
  unfold pull at h
  split at h
  · cases h
  · split at h
    · cases h
    · next line' rest _ hsplit =>
        dsimp only at h
        split at h
        · cases h
        · cases h
          rw [hsplit]

theorem pull_command (h : s.pull leading = (.command command, s')) :
    ∃ text, Bytes.newline ∉ text ∧ s.rest = text ++ Bytes.newline :: s'.rest ∧
      command = Line.argv leading text ∧
      s'.position = s.position + (text ++ [Bytes.newline]).length ∧ s'.closed = false := by
  unfold pull at h
  split at h
  · cases h
  · next hclosed =>
      split at h
      · cases h
      · next line rest _ hsplit =>
          dsimp only at h
          split at h
          · next c hcommand =>
              cases h
              unfold Line.command at hcommand
              split at hcommand
              · cases hcommand
              · next hends =>
                  have hend : line.endsLine = true := by simpa using hends
                  obtain ⟨text, hw, rfl, hrest⟩ := splitLine_whole hsplit hend
                  rw [List.dropLast_concat] at hcommand
                  dsimp only at hcommand
                  split at hcommand
                  · cases hcommand
                  · cases hcommand
                    exact ⟨text, hw, hrest, congrArg (leading ++ ·) (Line.words_eq text), rfl,
                      Bool.eq_false_iff.2 hclosed⟩
          · cases h

end Source

theorem Session.Abandoned.commands {s s' : Session} {o : Holdings}
    (h : s.Abandoned s' o) :
    s'.host.children.map Child.command = s.host.children.map Child.command :=
  h.map_eq fun _ _ hl => by obtain ⟨d, hd, rfl | rfl⟩ := hl <;> exact hd.command

/-! ### The invariant -/

namespace Run

variable {stream : Bytes} {texts : List Bytes} {r r' r₀ : Run} {o : Holdings} {kind : StepKind}

/-- What links a run to the lines that it has read: they are the first of the stream, and it has
launched just these, one job and one child each. -/
structure Lined (stream : Bytes) (texts : List Bytes) (r : Run) : Prop where
  whole : ∀ text ∈ texts, Bytes.newline ∉ text
  stream : Source.ofLines texts ++ r.source.rest = stream
  position : r.source.position = (Source.ofLines texts).length
  children : r.session.host.children.map Child.command = texts.map (Line.argv r.leading)
  jobs : r.session.board.jobs.map Job.command = texts.map (Line.argv r.leading)
  ended : r.source.closed = true ∨ r.session.board.exhausted = true → r.source.rest = []

theorem Lined.length (h : Lined stream texts r) :
    texts.length = r.session.host.children.length := by
  simpa using (congrArg List.length h.children).symm

theorem Lined.lines (h : Lined stream texts r) :
    Source.lines stream = texts ++ Source.lines r.source.rest := by
  rw [← h.stream]
  exact Source.lines_ofLines_append h.whole _

theorem Lined.take (h : Lined stream texts r) :
    (Source.lines stream).take r.session.host.children.length = texts := by
  rw [h.lines, ← h.length, List.take_left]

theorem Lined.length_lt (h : Lined stream texts r) :
    r.session.host.children.length < (Source.lines stream).length := by
  have hpos := List.length_pos_iff.2 (Source.lines_ne_nil r.source.rest)
  rw [h.lines, ← h.length, List.length_append]
  omega

/-! ### Steps -/

theorem Steady.commands_wait (h : r.Steady o) (hphase : r.session.board.phase = .waiting) :
    let s := r.session.wait.2
    s.host.children.map Child.command = r.session.host.children.map Child.command ∧
      s.board.jobs.map Job.command = r.session.board.jobs.map Job.command := by
  obtain ⟨-, hhandled, -⟩ := h.sound.wait h.announced hphase
  have hlater := h.sound.later_polled
  constructor
  · apply map_eq_of_getElem? (hhandled.host.length.trans hlater.length)
    intro i c'' hc''
    obtain ⟨c', hc', hd⟩ := hhandled.host.child i c'' hc''
    obtain ⟨c, hc, hlc⟩ := hlater.child_before hc'
    exact ⟨c, hc, hd.command.trans hlc.command⟩
  · refine List.ext_getElem? fun k => ?_
    rw [List.getElem?_map, List.getElem?_map]
    exact hhandled.commands k

theorem commands_launched (s : Session) (command : Command) (echo : Option Bytes) :
    (s.launched command echo).host.children.map Child.command =
        s.host.children.map Child.command ++ [command] ∧
      (s.launched command echo).board.jobs.map Job.command =
        s.board.jobs.map Job.command ++ [command] := by
  constructor
  · have hgrown : (s.host.opened.withChild s.host.pipes command echo).Later
        (s.host.opened.grown s.host.pipes command echo) := Host.later_grown
    have hmap : (s.launched command echo).host.children.map Child.command =
        (s.host.opened.withChild s.host.pipes command echo).children.map Child.command :=
      hgrown.map_eq fun _ _ hl => hl.command
    rw [hmap, Host.children_withChild, List.map_append]
    rfl
  · show (s.board.jobs ++ [_]).map Job.command = _
    rw [List.map_append]
    rfl

theorem Lined.step (hl : Lined stream texts r) (h : r.Steady o)
    (hs : r.step = some (kind, .ok (), r')) : ∃ texts', Lined stream texts' r' := by
  cases h.stepping hs with
  | exhausted source hphase hpull =>
      obtain ⟨hrest, hposition, hend⟩ := Source.pull_exhausted hpull
      refine ⟨texts, hl.whole, ?_, hposition.trans hl.position, hl.children, hl.jobs, fun _ => ?_⟩
      · rw [← hl.stream, ← hrest]
      · rw [show source.rest = _ from hrest]
        cases hclosed : r.source.closed with
        | true => exact hl.ended (.inl hclosed)
        | false => exact hend hclosed
  | launched command source hphase hpull =>
      obtain ⟨text, hw, hrest, rfl, hposition, hopen⟩ := Source.pull_command hpull
      obtain ⟨hchildren, hjobs⟩ :=
        commands_launched r.session (Line.argv r.leading text) (r.echo (Line.argv r.leading text))
      refine ⟨texts ++ [text], ?_, ?_, ?_, ?_, ?_, ?_⟩
      · intro t ht
        rcases List.mem_append.1 ht with ht | ht
        · exact hl.whole t ht
        · rw [List.mem_singleton.1 ht]
          exact hw
      · rw [← hl.stream, hrest]
        simp [Source.ofLines]
      · rw [show source.position = _ from hposition, hl.position]
        simp [Source.ofLines]
      · rw [hchildren, hl.children, List.map_append]
        rfl
      · rw [hjobs, hl.jobs, List.map_append]
        rfl
      · rintro (hclosed | hexhausted)
        · rw [show source.closed = false from hopen] at hclosed
          cases hclosed
        · have hmore := phase_filling hphase
          rw [show r.session.board.exhausted = true from hexhausted] at hmore
          cases hmore
  | waited hphase hwait =>
      obtain ⟨hchildren, hjobs⟩ := h.commands_wait hphase
      obtain ⟨-, hhandled, -⟩ := h.sound.wait h.announced hphase
      have hexhausted := hhandled.exhausted
      rw [hwait] at hchildren hjobs hexhausted
      refine ⟨texts, hl.whole, hl.stream, hl.position, hchildren.trans hl.children,
        hjobs.trans hl.jobs, ?_⟩
      rw [hexhausted]
      exact hl.ended

/-- A step reads only if it may launch, and a child is forked just in the steps that read and
succeed. -/
theorem Steady.step_reads (h : r.Steady o) {result : Except Failure Unit}
    (hs : r.step = some (kind, result, r')) :
    let n := r.session.host.children.length
    (r'.source.position ≠ r.source.position → r.session.board.canLaunch = true ∧
      (result = .ok () → r'.session.host.children.length = n + 1)) ∧
    (r'.source.position = r.source.position → r'.session.host.children.length = n) := by
  intro n
  cases h.stepping hs with
  | exhausted source hphase hpull =>
      obtain ⟨-, hposition, -⟩ := Source.pull_exhausted hpull
      exact ⟨fun hne => absurd hposition hne, fun _ => rfl⟩
  | refused fault line source hphase =>
      exact ⟨fun _ => ⟨phase_filling_launch hphase, fun hok => by cases hok⟩, fun _ => rfl⟩
  | noPipe e command source hphase | noChild e command source hphase =>
      exact ⟨fun _ => ⟨phase_filling_launch hphase, fun hok => by cases hok⟩, fun _ => rfl⟩
  | launched command source hphase hpull =>
      obtain ⟨text, -, -, -, hposition, -⟩ := Source.pull_command hpull
      refine ⟨fun _ => ⟨phase_filling_launch hphase, fun _ => Host.length_grown⟩, fun heq => ?_⟩
      have heq : source.position = r.source.position := heq
      rw [heq] at hposition
      simp at hposition
  | waited hphase hwait =>
      obtain ⟨-, hhandled, -⟩ := h.sound.wait h.announced hphase
      have hlength := hhandled.host.length.trans h.sound.later_polled.length
      rw [hwait] at hlength
      exact ⟨fun hne => absurd rfl hne, fun _ => hlength⟩

theorem Steady.commands_failed (h : r.Steady o) {e : Failure}
    (hs : r.step = some (kind, .error e, r')) :
    r'.session.host.children.map Child.command = r.session.host.children.map Child.command := by
  cases h.stepping hs with
  | refused | noPipe | noChild => rfl
  | waited hphase hwait =>
      obtain ⟨hchildren, -⟩ := h.commands_wait hphase
      rw [hwait] at hchildren
      exact hchildren

/-- A step fails on a line if the pull of a launch is refused, and then it leaves the session as it
is. -/
theorem Steady.step_badLine (h : r.Steady o) {fault : LineFault} {line : Bytes}
    (hs : r.step = some (kind, .error (.badLine fault line), r')) :
    kind = .launch ∧ r.session.board.phase = .filling ∧
      r.source.pull r.leading = (.refused fault line, r'.source) ∧ r'.session = r.session := by
  cases h.stepping hs with
  | refused fault line source hphase hpull =>
      rw [step_of_refused hphase hpull] at hs
      cases hs
      exact ⟨rfl, hphase, hpull, rfl⟩
  | waited hphase hwait =>
      obtain ⟨-, -, hsystem, -⟩ := h.sound.wait h.announced hphase
      rw [hwait] at hsystem
      obtain ⟨operation, error, herr⟩ := hsystem _ rfl
      cases herr

/-- A line that is refused is the first that was not launched, as far as it was read. -/
theorem Lined.refused (hl : Lined stream texts r) {fault : LineFault} {line : Bytes}
    {source : Source} (hpull : r.source.pull r.leading = (.refused fault line, source)) :
    ∃ text, Source.line stream r.session.host.children.length = some text ∧
      line = text.take Line.maxLength := by
  obtain ⟨text, more, hrest⟩ := List.exists_cons_of_ne_nil (Source.lines_ne_nil r.source.rest)
  have hlines := hl.lines
  rw [hrest] at hlines
  refine ⟨if more = [] then text else text ++ [Bytes.newline], ?_, ?_⟩
  · rw [Source.line, hlines, ← hl.length]
    cases more <;> simp
  · rw [Source.pull_refused hpull]
    exact Source.splitLine_lines hrest _

theorem Lined.done (hl : Lined stream texts r) (hdone : r.step = none) :
    r.session.host.children.length = stream.count Bytes.newline ∧ r.source.rest = [] ∧
      r.source.position = stream.length := by
  obtain ⟨hexhausted, -, -⟩ := done_of_step_none hdone
  have hrest := hl.ended (.inr hexhausted)
  have hstream := hl.stream
  have hlines := congrArg List.length hl.lines
  rw [hrest, List.append_nil] at hstream
  rw [hrest, Source.length_lines, List.length_append] at hlines
  refine ⟨?_, hrest, ?_⟩
  · rw [← hl.length]
    exact (Nat.succ.inj hlines).symm
  · rw [hl.position, hstream]

/-! ### Runs -/

section found

variable {c : Config} {limits : Limits} {platform : Platform} {rounds : List (List Event)}
  {handler : Handler} {wakeup : Option Descriptor}

theorem lined_of_found
    (h : Reached (prepare c limits (Host.found platform rounds handler wakeup o) stream) r) :
    ∃ texts, Lined stream texts r := by
  induction h with
  | start hn =>
      obtain ⟨-, rfl⟩ := Notifier.install_ok hn
      refine ⟨[], by simp, rfl, rfl, rfl, rfl, ?_⟩
      rintro (hclosed | hexhausted)
      · cases hclosed
      · cases hexhausted
  | step hr hs ih =>
      obtain ⟨texts, hl⟩ := ih
      obtain ⟨hsteady, -⟩ := steady_of_found hr
      exact hl.step hsteady hs

theorem commands_of_found
    (h : Reached (prepare c limits (Host.found platform rounds handler wakeup o) stream) r) :
    r.session.host.children.map Child.command =
      ((Source.lines stream).take r.session.host.children.length).map (Line.argv c.leading) := by
  obtain ⟨texts, hl⟩ := lined_of_found h
  obtain ⟨-, hfixed⟩ := steady_of_found h
  rw [hl.take, hl.children, show r.leading = c.leading from hfixed.leading]

/-- A run that has ended has launched the lines up to some point; the line there is the one that it
failed on, if it failed on a line, and there is none if it returned. -/
theorem lined_execute (c : Config) (limits : Limits) (platform : Platform)
    (rounds : List (List Event)) (handler : Handler) (wakeup : Option Descriptor) (o : Holdings)
    (stream : Bytes) :
    let result :=
      (prepare c limits (Host.found platform rounds handler wakeup o) stream).execute
    let children := result.final.session.host.children
    children.map Child.command =
        ((Source.lines stream).take children.length).map (Line.argv c.leading) ∧
      (∀ fault line, result.outcome = .error (.badLine fault line) →
        ∃ text, Source.line stream children.length = some text ∧
          line = text.take Line.maxLength) ∧
      ∀ code, result.outcome = .ok code → children.length = stream.count Bytes.newline ∧
        result.final.source.rest = [] ∧ result.final.source.position = stream.length := by
  intro result children
  rcases (prepare c limits (Host.found platform rounds handler wakeup o) stream).execute_cases with
    ⟨e, host, hn, heq⟩ | ⟨n, host, -, hend⟩
  · obtain ⟨-, rfl⟩ := Notifier.install_error hn
    have heq : result = _ := heq
    refine ⟨by simp only [children, heq]; rfl, fun fault line hout => ?_, fun code hout => ?_⟩
    all_goals
      rw [heq] at hout
      cases hout
  rcases hend with ⟨last, kind, e, failed, visits, hr, hs, heq⟩ | ⟨done, visits, hr, hdone, heq⟩
  · have heq : result = _ := heq
    obtain ⟨texts, hl⟩ := lined_of_found hr
    obtain ⟨hsteady, -⟩ := steady_of_found hr
    have hcommands : children.map Child.command =
        last.session.host.children.map Child.command := by
      have hchildren : children = failed.session.abandon.host.children := by
        simp only [children, heq]
        exact n.children_remove _
      rw [hchildren, (hsteady.step hs).sound.abandoned.commands, hsteady.commands_failed hs]
    have hlength : children.length = last.session.host.children.length := by
      simpa using congrArg List.length hcommands
    rw [hcommands, hlength]
    refine ⟨commands_of_found hr, fun fault line hout => ?_, fun code hout => ?_⟩
    · rw [heq] at hout
      cases hout
      obtain ⟨-, -, hpull, -⟩ := hsteady.step_badLine hs
      exact hl.refused hpull
    · rw [heq] at hout
      cases hout
  · have heq : result = _ := heq
    obtain ⟨texts, hl⟩ := lined_of_found hr
    have hchildren : children = done.session.host.children := by
      simp only [children, heq]
      exact (ended_conclude done n).children
    have hsource : result.final.source = done.source := by
      simp only [heq]
      unfold conclude
      split <;> rfl
    rw [hchildren, hsource]
    refine ⟨commands_of_found hr, fun fault line hout => ?_, fun code _ => hl.done hdone⟩
    rw [heq] at hout
    exact absurd hout ((done.onHost n.remove).conclude_ne_badLine fault line)

/-- The jobs are the lines, each once and in order.  Whenever the loop goes round, the children are
the first lines and so are the jobs, and just these lines were read; a step reads a line only if it
may launch, and forks the child of that line unless it fails.  A run that fails on a line has forked
the children of the lines before it; one that returns has forked one for every line, and has read
all of its stream. -/
theorem jobs_are_lines (c : Config) (limits : Limits) (platform : Platform)
    (rounds : List (List Event)) (handler : Handler) (wakeup : Option Descriptor) (o : Holdings)
    (stream : Bytes) :
    let r₀ := prepare c limits (Host.found platform rounds handler wakeup o) stream
    let lines := Source.lines stream
    let children := r₀.execute.final.session.host.children
    (∀ r, Reached r₀ r →
      let n := r.session.host.children.length
      r.session.board.next = n ∧ n < lines.length ∧
      r.session.host.children.map Child.command = (lines.take n).map (Line.argv c.leading) ∧
      r.session.board.jobs.map Job.command = (lines.take n).map (Line.argv c.leading) ∧
      (∀ (k : Nat) (job : Job), r.session.board.jobs[k]? = some job →
        job.index = k ∧ job.pid = some (Host.pidOf k)) ∧
      r.source.position = (Source.ofLines (lines.take n)).length ∧
      Source.ofLines (lines.take n) ++ r.source.rest = stream) ∧
    (∀ r kind result r', Reached r₀ r → r.step = some (kind, result, r') →
      let n := r.session.host.children.length
      (r'.source.position ≠ r.source.position → r.session.board.canLaunch = true ∧
        (result = .ok () → r'.session.host.children.length = n + 1)) ∧
      (r'.source.position = r.source.position → r'.session.host.children.length = n)) ∧
    children.map Child.command = (lines.take children.length).map (Line.argv c.leading) ∧
    (∀ fault line, r₀.execute.outcome = .error (.badLine fault line) →
      ∃ text, Source.line stream children.length = some text ∧ line = text.take Line.maxLength) ∧
    ∀ code, r₀.execute.outcome = .ok code → children.length = stream.count Bytes.newline ∧
      r₀.execute.final.source.rest = [] ∧
      r₀.execute.final.source.position = stream.length := by
  intro r₀ lines children
  refine ⟨fun r hr => ?_, fun r kind result r' hr hs => ?_, ?_⟩
  · obtain ⟨texts, hl⟩ := lined_of_found hr
    obtain ⟨hsteady, hfixed⟩ := steady_of_found hr
    have hleading : r.leading = c.leading := hfixed.leading
    refine ⟨hsteady.sound.length_eq.symm, hl.length_lt, commands_of_found hr, ?_, ?_, ?_, ?_⟩
    · rw [hl.take, hl.jobs, hleading]
    · intro k job hjob
      have hkept := hsteady.sound.board.kept k job hjob
      exact ⟨hkept.index, hkept.pid⟩
    · rw [hl.take]
      exact hl.position
    · rw [hl.take]
      exact hl.stream
  · obtain ⟨hsteady, -⟩ := steady_of_found hr
    exact hsteady.step_reads hs
  · exact lined_execute c limits platform rounds handler wakeup o stream

/-- The first of two lines was launched, and its spaces separate two words. -/
theorem jobs_are_lines_one_launched :
    let r₀ := prepare ⟨2, none, true, none, [[0x70]]⟩ ⟨2, 2, by decide, by decide⟩
      (Host.found {} [] .default none {}) [0x61, 0x20, 0x20, 0x62, 0x0a, 0x63]
    ∃ r, Reached r₀ r ∧ r.session.board.next = 1 ∧
      r.session.host.children.map Child.command = [[[0x70], [0x61], [0x62]]] ∧
      r.source.position = 5 := by
  intro r₀
  have hstart : Reached r₀ _ := .start (n := ⟨0, .default, none⟩) rfl
  have hlaunched : Reached r₀ _ := hstart.step (step_of_filling rfl)
  obtain ⟨hnext, -, hcommands, -, -, hposition, -⟩ :=
    (jobs_are_lines ⟨2, none, true, none, [[0x70]]⟩ ⟨2, 2, by decide, by decide⟩ {} [] .default none
      {} [0x61, 0x20, 0x20, 0x62, 0x0a, 0x63]).1 _ hlaunched
  exact ⟨_, hlaunched, hnext, hcommands, hposition⟩

end found

end Run

end OrderedJobs
