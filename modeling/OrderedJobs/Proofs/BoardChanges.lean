import Mathlib.Logic.Relation
import OrderedJobs.Proofs.Reached
import OrderedJobs.Proofs.WaitRule

/-! # Changes of the board

A run changes its board in five ways only: it notes the end of the input, puts a launched job on the
board, accounts for the end of a child, begins to copy the output of the job at the cursor, and
finishes with it (`Board.Change`).  Every step of a run, failing or not, comes to a sequence of such
changes (`Run.Steady.changes_step`), so what each of them preserves holds along every run. -/

namespace OrderedJobs

/-- A single change of the board of a run. -/
inductive Board.Change (b : Board) : Board → Prop
  | exhausts : Change b { b with exhausted := true }
  | launches (command : Command) (hc : b.canLaunch = true) :
      Change b (b.enroll (({ index := b.next, command } : Job).runBy b.jobs.length)
        (Host.pidOf b.jobs.length))
  | reaps (j : Nat) (status : WaitStatus) (hj : j ∈ b.unreaped) :
      Change b ((b.recordExit (Host.pidOf j) j status).settled j)
  | begins (j : Nat) (hj : (j : Int) = b.current) (hlt : b.current < b.next) :
      Change b (b.updateJob j fun job => { job with stage := .draining })
  | drains (j : Nat) (hj : (j : Int) = b.current) (hlt : b.current < b.next)
      (hstage : (b.jobs[j]?).map Job.stage = some .draining) :
      Change b ((b.recordDrained j).settled j)

theorem Board.Sound.change {b b' : Board} (h : b.Sound) (hc : b.Change b') : b'.Sound := by
  cases hc with
  | exhausts => exact h.exhaust
  | launches command hc => exact h.enroll hc (h.kept_launched command) rfl rfl
  | reaps j status hj => exact h.reap hj status
  | begins j hj => exact h.startDraining (by omega)
  | drains j hj hlt => exact h.drain hj hlt

theorem Board.sound_of_changes {b : Board} {limits : Limits}
    (hr : Relation.ReflTransGen Board.Change (Board.empty limits) b) : b.Sound := by
  induction hr with
  | refl => exact Board.sound_empty limits
  | tail _ hc ih => exact ih.change hc

namespace Session

variable {s : Session} {o : Holdings} {j : Nat}

theorem Sound.changes_reapEach (l : List (Int × Nat)) (h : s.Sound o)
    (hl : ∀ x ∈ l, x ∈ s.board.running) (hn : (l.map Prod.fst).Nodup) :
    Relation.ReflTransGen Board.Change s.board (Session.reapEach l s).2.board := by
  induction l generalizing s with
  | nil => exact .refl
  | cons x rest ih =>
      obtain ⟨pid, j⟩ := x
      obtain ⟨rfl, hj⟩ := h.board.mem_running.1 (hl _ List.mem_cons_self)
      rw [List.map_cons, List.nodup_cons] at hn
      have hrest : ∀ x ∈ rest, x ∈ s.board.running := fun x hx => hl x (List.mem_cons_of_mem _ hx)
      obtain ⟨c, hc, -⟩ := h.child_of_unreaped hj
      rw [h.reapEach_cons hj hc]
      split
      · exact .refl
      · cases hs : c.status with
        | none => exact ih h hrest hn.2
        | some status =>
            refine .head (.reaps j status hj) (ih (h.exited hj hc hs) (fun x hx => ?_) hn.2)
            exact mem_running_exited (hrest x hx) fun heq => hn.1 (List.mem_map.2 ⟨x, hx, heq⟩)

theorem Sound.changes_handleNotices (h : s.Sound o) :
    Relation.ReflTransGen Board.Change s.board s.handleNotices.2.board := by
  have hreap : Relation.ReflTransGen Board.Change s.board s.reap.2.board :=
    h.takeNotices.changes_reapEach s.board.running (fun _ => id) h.board.nodup_running
  rcases h.handleNotices_cases with ⟨pid, j, -, -, heq⟩ | heq | heq
  · rw [heq]
    exact hreap
  · rw [heq]
    exact hreap
  · rw [heq, noteReaped, board_present]
    exact hreap

/-- A drain of the job at the cursor: one change, or two at the end of its output. -/
theorem Sound.changes_drain (h : s.Sound o) (hj : (j : Int) = s.board.current)
    (hlt : s.board.current < s.board.next) :
    Relation.ReflTransGen Board.Change s.board (s.drain j).2.board := by
  have hbegins : s.board.Change (s.began j).board := .begins j hj hlt
  rcases h.board_drain hj hlt with heq | heq
  · rw [heq]
    exact .single hbegins
  · rw [heq]
    obtain ⟨job, hjob, -⟩ := h.job_at_cursor hj hlt
    refine .tail (.single hbegins) (.drains j hj hlt ?_)
    show ((s.board.jobs.modify j _)[j]?).map Job.stage = _
    rw [List.getElem?_modify_eq, hjob]
    rfl

theorem Sound.changes_wait (h : s.Sound o) (ha : s.host.Announced)
    (hphase : s.board.phase = .waiting) :
    Relation.ReflTransGen Board.Change s.board s.wait.2.board := by
  refine (h.wait_yields (P := fun t => Relation.ReflTransGen Board.Change s.board t.board)
    (F := fun _ t => Relation.ReflTransGen Board.Change s.board t.board) ha hphase .refl ?_
    (fun _ => id) ?_).snd
  · intro hsound
    exact yields_of_snd hsound.changes_handleNotices
  · intro t j hsound ht hj hlt _
    exact yields_of_snd (ht.trans (hsound.changes_drain hj hlt))

end Session

/-- Every step of a run is a sequence of changes of its board, whether it fails or not. -/
theorem Run.Steady.changes_step {r r' : Run} {o : Holdings} (h : r.Steady o) {kind : StepKind}
    {result : Except Failure Unit} (hs : r.step = some (kind, result, r')) :
    Relation.ReflTransGen Board.Change r.session.board r'.session.board := by
  cases h.stepping hs with
  | exhausted => exact .single .exhausts
  | refused | noPipe | noChild => exact .refl
  | launched command source hphase =>
      have hlaunches := Board.Change.launches command (phase_filling_launch hphase)
      rw [← h.sound.children] at hlaunches
      exact .single hlaunches
  | waited hphase hwait =>
      have hchanges := h.sound.changes_wait h.announced hphase
      rw [hwait] at hchanges
      exact hchanges

theorem Run.changes_of_found {c : Config} {limits : Limits} {platform : Platform}
    {rounds : List (List Event)} {handler : Handler} {wakeup : Option Descriptor} {o : Holdings}
    {stream : Bytes} {r : Run}
    (h : Run.Reached (.prepare c limits (Host.found platform rounds handler wakeup o) stream) r) :
    Relation.ReflTransGen Board.Change (Board.empty limits) r.session.board := by
  induction h with
  | start hn => exact .refl
  | step hr hs ih => exact ih.trans ((steady_of_found hr).1.changes_step hs)

end OrderedJobs
