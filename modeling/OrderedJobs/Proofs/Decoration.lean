import OrderedJobs.Display

/-! # Decorated output

What notes, erasures and fillers do to an output.  The place where the output stands is one of three
(`Pen`): at the beginning of a line, there with a note shown, or in the middle of a line.  Which
segments may come next depends on it alone: in the middle of a line no control may, and after a note
only the erasure that removes it.  So a list of segments is in order if the pen gets through it
(`Pen.through`), and the display keeps it in order as it goes (`Decoration.onReaped`,
`Decoration.onData`, `Decoration.onEnd`) and to the end (`Decoration.onFinish`).

The bytes of the jobs and the fillers between them are kept apart by marks, in which a filler is no
byte (`Segment.marks`). -/

namespace OrderedJobs

namespace Segment

/-- The bytes of jobs in a segment. -/
def jobBytes : Segment → Bytes
  | job data => data
  | erase | note .. | filler => []

/-- The bytes of jobs and fillers in a segment: what a line is made of. -/
def lineBytes : Segment → Bytes
  | job data => data
  | filler => [Bytes.newline]
  | erase | note .. => []

/-- The bytes of jobs in a segment, and a mark that is no byte for a filler. -/
def marks : Segment → List (Option UInt8)
  | job data => data.map some
  | filler => [none]
  | erase | note .. => []

/-- A segment that is neither of a job nor a filler. -/
def isControl : Segment → Bool
  | erase | note .. => true
  | job _ | filler => false

/-- The numbers in a note: how many jobs are finished, and how many were started. -/
def note? : Segment → Option (Int × Int)
  | note finished started => some (finished, started)
  | _ => none

theorem filterMap_marks (x : Segment) : x.marks.filterMap id = x.jobBytes := by
  cases x <;> simp [marks, jobBytes]

end Segment

/-- Some bytes stop in the middle of a line: there are any, and they do not end in a terminator. -/
def Bytes.inLine (b : Bytes) : Bool := !b.isEmpty && !b.endsLine

/-- What a job should look like: its bytes, and a filler if they stop in the middle of a line. -/
def terminated (content : Bytes) : List (Option UInt8) :=
  content.map some ++ if content.inLine then [none] else []

theorem Bytes.inLine_append {b data : Bytes} (h : data ≠ []) :
    Bytes.inLine (b ++ data) = !data.endsLine := by
  unfold inLine
  rw [endsLine_append h, List.isEmpty_eq_false_iff.2 (by simp [h]), Bool.not_false, Bool.true_and]

theorem Bytes.inLine_eq_false {b : Bytes} : b.inLine = false ↔ b = [] ∨ b.endsLine = true := by
  unfold inLine
  cases b.endsLine <;> simp

theorem filterMap_terminated (content : Bytes) :
    (terminated content).filterMap id = content := by
  unfold terminated
  cases content.inLine <;> simp

/-! ### The pen -/

/-- Where the output stands. -/
inductive Pen where
  /-- At the beginning of a line. -/
  | fresh
  /-- At the beginning of a line, where a note is shown. -/
  | noted
  /-- In the middle of a line. -/
  | midway
deriving DecidableEq, Repr

namespace Pen

/-- Where the output stands after a segment, if that may come here. -/
def next (p : Pen) : Segment → Option Pen
  | .erase => if p = midway then none else some fresh
  | .note .. => if p = fresh then some noted else none
  | .filler => if p = midway then some fresh else none
  | .job data =>
      if p = noted ∨ data = [] then none else some (if data.endsLine then fresh else midway)

/-- Where the output stands after some segments, if they may follow each other. -/
def through (p : Pen) (l : List Segment) : Option Pen := l.foldlM next p

variable {p q : Pen} {b : Bytes} {x : Segment} {l m before after : List Segment}

theorem through_append (p : Pen) (l m : List Segment) :
    p.through (l ++ m) = (p.through l).bind fun q => q.through m := by
  unfold through
  rw [List.foldlM_append]
  rfl

theorem through_cons (p : Pen) (x : Segment) (l : List Segment) :
    p.through (x :: l) = (p.next x).bind fun q => q.through l := by
  unfold through
  rw [List.foldlM_cons]
  rfl

theorem midway_next (h : p.next x = some q) (hp : p = midway ↔ b.inLine = true) :
    q = midway ↔ Bytes.inLine (b ++ x.lineBytes) = true := by
  cases x with
  | job data =>
      simp only [next, Option.ite_none_left_eq_some, not_or, Option.some.injEq] at h
      obtain ⟨⟨-, hdata⟩, rfl⟩ := h
      rw [Segment.lineBytes, Bytes.inLine_append hdata]
      cases data.endsLine <;> simp
  | erase =>
      simp only [next, Option.ite_none_left_eq_some, Option.some.injEq] at h
      obtain ⟨hmid, rfl⟩ := h
      rw [Segment.lineBytes, List.append_nil, ← hp]
      simp [hmid]
  | note f s =>
      simp only [next, Option.ite_none_right_eq_some, Option.some.injEq] at h
      obtain ⟨rfl, rfl⟩ := h
      rw [Segment.lineBytes, List.append_nil, ← hp]
      simp
  | filler =>
      simp only [next, Option.ite_none_right_eq_some, Option.some.injEq] at h
      obtain ⟨-, rfl⟩ := h
      rw [Segment.lineBytes, Bytes.inLine_append (List.cons_ne_nil _ _)]
      decide

theorem midway_through (h : p.through l = some q) (hp : p = midway ↔ b.inLine = true) :
    q = midway ↔ Bytes.inLine (b ++ l.flatMap Segment.lineBytes) = true := by
  induction l generalizing p b with
  | nil =>
      cases h
      rw [List.flatMap_nil, List.append_nil]
      exact hp
  | cons x l ih =>
      rw [through_cons] at h
      obtain ⟨t, ht, hl⟩ := Option.bind_eq_some_iff.1 h
      rw [List.flatMap_cons, ← List.append_assoc]
      exact ih hl (midway_next ht hp)

/-- Where the pen stands at a segment of a list that it gets through. -/
theorem through_split (h : fresh.through (before ++ x :: after) = some q) :
    ∃ p t, fresh.through before = some p ∧ p.next x = some t ∧ t.through after = some q := by
  rw [through_append] at h
  obtain ⟨p, hp, hrest⟩ := Option.bind_eq_some_iff.1 h
  rw [through_cons] at hrest
  obtain ⟨t, ht, hafter⟩ := Option.bind_eq_some_iff.1 hrest
  exact ⟨p, t, hp, ht, hafter⟩

theorem lineStart_of_control (h : fresh.through (before ++ x :: after) = some q)
    (hx : x.isControl = true) : before.flatMap Segment.lineBytes = [] ∨
      Bytes.endsLine (before.flatMap Segment.lineBytes) = true := by
  obtain ⟨p, t, hp, ht, -⟩ := through_split h
  have hmid := midway_through hp (b := []) (by decide)
  rw [List.nil_append] at hmid
  rw [← Bytes.inLine_eq_false, ← Bool.not_eq_true, ← hmid]
  rintro rfl
  cases x <;> simp [next, Segment.isControl] at ht hx

/-- The next thing after a note removes it. -/
theorem erase_of_note {f s : Int} (h : fresh.through (before ++ .note f s :: after) = some fresh) :
    ∃ rest, after = .erase :: rest := by
  obtain ⟨p, t, -, ht, hafter⟩ := through_split h
  have hnoted : t = noted := by
    simp only [next, Option.ite_none_right_eq_some, Option.some.injEq] at ht
    exact ht.2.symm
  subst hnoted
  cases after with
  | nil => cases hafter
  | cons y rest =>
      rw [through_cons] at hafter
      obtain ⟨u, hu, -⟩ := Option.bind_eq_some_iff.1 hafter
      cases y <;> simp [next] at hu
      exact ⟨rest, rfl⟩

theorem job_of_midway (h : fresh.through l = some midway) :
    ∃ front data, l = front ++ [.job data] := by
  rcases List.eq_nil_or_concat l with rfl | ⟨front, x, rfl⟩
  · cases h
  rw [List.concat_eq_append] at h ⊢
  obtain ⟨p, t, -, ht, hnil⟩ := through_split h
  cases hnil
  cases x with
  | job data => exact ⟨front, data, rfl⟩
  | erase | note | filler => simp [next] at ht

/-- A filler directly follows job bytes. -/
theorem job_of_filler (h : fresh.through (before ++ .filler :: after) = some q) :
    ∃ front data, before = front ++ [.job data] := by
  obtain ⟨p, t, hp, ht, -⟩ := through_split h
  simp only [next, Option.ite_none_right_eq_some] at ht
  exact job_of_midway (ht.1 ▸ hp)

end Pen

/-! ### What the display gives out -/

/-- Segments that are in order, and that show some jobs as they should look and a job in progress
as far as it has come. -/
structure Decoration (l : List Segment) (done : List Bytes) (now : Bytes) : Prop where
  marks : l.flatMap Segment.marks = done.flatMap terminated ++ now.map some
  pen : ∃ p, Pen.fresh.through l = some p ∧ (p = .midway ↔ now.inLine = true)

namespace Decoration

variable {l : List Segment} {done : List Bytes} {now data : Bytes}

theorem nil : Decoration [] [] [] := ⟨rfl, .fresh, rfl, by decide⟩

theorem jobBytes (h : Decoration l done now) :
    l.flatMap Segment.jobBytes = done.flatten ++ now := by
  have hmarks := congrArg (List.filterMap id) h.marks
  rw [List.filterMap_append, List.filterMap_flatMap, List.filterMap_flatMap] at hmarks
  simp only [Segment.filterMap_marks, filterMap_terminated] at hmarks
  rw [hmarks, List.flatten_eq_flatMap, List.filterMap_map]
  simp

/-- Segments without job bytes and fillers, from a place that is not in the middle of a line. -/
theorem append_controls {m : List Segment} {q : Pen} (h : Decoration l done now)
    (hnow : now.inLine = false) (hmarks : m.flatMap Segment.marks = []) (hq : q ≠ .midway)
    (hm : ∀ p : Pen, p ≠ .midway → p.through m = some q) : Decoration (l ++ m) done now where
  marks := by rw [List.flatMap_append, hmarks, List.append_nil, h.marks]
  pen := by
    obtain ⟨p, hp, hmid⟩ := h.pen
    rw [hnow] at hmid
    refine ⟨q, ?_, by simp [hq, hnow]⟩
    rw [Pen.through_append, hp, Option.bind_some]
    exact hm p fun heq => by simpa using hmid.1 heq

theorem onReaped (h : Decoration l done now) (finished started : Int) :
    Decoration (l ++ (Display.mk true now.inLine).onReaped finished started) done now := by
  unfold Display.onReaped
  cases hnow : now.inLine with
  | true =>
      rw [if_neg (by simp), List.append_nil]
      exact h
  | false =>
      rw [if_pos (by simp)]
      exact h.append_controls (q := .noted) hnow rfl (by decide) fun p hp => by
        cases p with
        | midway => exact absurd rfl hp
        | fresh | noted => rfl

theorem onData (h : Decoration l done now) (hdata : data ≠ []) (finished started : Int) :
    Decoration (l ++ ((Display.mk true now.inLine).onData data finished started).1) done
        (now ++ data) ∧
      ((Display.mk true now.inLine).onData data finished started).2 =
        Display.mk true (now ++ data).inLine := by
  obtain ⟨p, hp, hmid⟩ := h.pen
  rw [Bytes.inLine_append hdata]
  refine ⟨⟨?_, ?_⟩, rfl⟩
  · have hmarks : ((Display.mk true now.inLine).onData data finished started).1.flatMap
        Segment.marks = data.map some := by
      unfold Display.onData
      cases now.inLine <;> cases data.endsLine <;> simp [Segment.marks]
    rw [List.flatMap_append, hmarks, h.marks, List.append_assoc, ← List.map_append]
  · rw [Bytes.inLine_append hdata, Pen.through_append, hp, Option.bind_some]
    unfold Display.onData
    cases hnow : now.inLine <;> rw [hnow] at hmid <;> cases hends : data.endsLine <;> cases p <;>
      simp_all [Pen.through, Pen.next]

theorem onEnd (h : Decoration l done now) :
    Decoration (l ++ (Display.mk true now.inLine).onEnd.1) (done ++ [now]) [] ∧
      (Display.mk true now.inLine).onEnd.2 = Display.mk true (Bytes.inLine []) := by
  obtain ⟨p, hp, hmid⟩ := h.pen
  have hmarks : (done ++ [now]).flatMap terminated =
      l.flatMap Segment.marks ++ if now.inLine then [none] else [] := by
    rw [h.marks, List.flatMap_append, List.append_assoc]
    simp [terminated]
  cases hnow : now.inLine with
  | true =>
      rw [hnow] at hmid hmarks
      refine ⟨⟨?_, .fresh, ?_, by decide⟩, rfl⟩
      · rw [List.map_nil, List.append_nil, hmarks, List.flatMap_append]
        rfl
      · rw [Pen.through_append, hp, Option.bind_some, hmid.2 rfl]
        rfl
  | false =>
      rw [hnow] at hmid hmarks
      refine ⟨⟨?_, .fresh, ?_, by decide⟩, rfl⟩
      · rw [List.map_nil, List.append_nil, hmarks, List.flatMap_append]
        rfl
      · rw [Pen.through_append, hp, Option.bind_some]
        cases p with
        | midway => exact absurd (hmid.1 rfl) (by decide)
        | fresh | noted => rfl

end Decoration

/-! ### At the end -/

/-- A whole output that shows some jobs.  Their bytes come through as they are, one job after the
other; a filler directly follows the bytes of a job that stop in the middle of a line, and there is
no other; controls stand at the beginning of a line; and what follows a note is its erasure. -/
structure Transparent (l : List Segment) (contents : List Bytes) : Prop where
  jobs : l.flatMap Segment.jobBytes = contents.flatten
  fillers : l.flatMap Segment.marks = contents.flatMap terminated
  follows : ∀ before after : List Segment, l = before ++ .filler :: after →
    ∃ front data, before = front ++ [.job data]
  lineStart : ∀ (before : List Segment) (x : Segment) (after : List Segment),
    l = before ++ x :: after → x.isControl = true → before.flatMap Segment.lineBytes = [] ∨
      Bytes.endsLine (before.flatMap Segment.lineBytes) = true
  erased : ∀ (before : List Segment) (f s : Int) (after : List Segment),
    l = before ++ .note f s :: after → ∃ rest, after = .erase :: rest

/-- After the last job, the display removes the last note. -/
theorem Decoration.onFinish {l : List Segment} {done : List Bytes} (h : Decoration l done []) :
    Transparent (l ++ (Display.mk true (Bytes.inLine [])).onFinish) done := by
  obtain ⟨p, hp, hmid⟩ := h.pen
  have hpen : Pen.fresh.through (l ++ [.erase]) = some .fresh := by
    rw [Pen.through_append, hp, Option.bind_some]
    cases p with
    | midway => exact absurd (hmid.1 rfl) (by decide)
    | fresh | noted => rfl
  show Transparent (l ++ [.erase]) done
  constructor
  case jobs =>
    rw [List.flatMap_append, h.jobBytes, List.append_nil]
    exact List.append_nil _
  case fillers =>
    rw [List.flatMap_append, h.marks, List.map_nil, List.append_nil]
    exact List.append_nil _
  case follows =>
    intro before after heq
    exact Pen.job_of_filler (heq ▸ hpen)
  case lineStart =>
    intro before x after heq hx
    exact Pen.lineStart_of_control (heq ▸ hpen) hx
  case erased =>
    intro before f s after heq
    exact Pen.erase_of_note (heq ▸ hpen)

end OrderedJobs
