import OrderedJobs.Proofs.Collecting
import OrderedJobs.Proofs.Contribution
import OrderedJobs.Proofs.ValidLines

/-! # The exit code

How the child of a line ends is settled by the platform, its command and its own events
(`endStatus`), whatever the limits and the presentation.  When a run over valid lines is done, every
child has ended so, and each status was folded into the exit code once (`Sound.exitCode_eq`).  The
fold does not depend on the order, so the code is the most severe of the statuses that were settled
from the beginning (`Config.exit_code_exact`). -/

namespace OrderedJobs

/-! ### Statuses by their bits -/

namespace WaitStatus

variable {code bound : Int} {s : WaitStatus} {l m : List WaitStatus}

/-- The code of a status, read off the bits of a word: bits 8 to 15 if the low seven are clear, and
1 otherwise. -/
def bitCode (s : WaitStatus) : Int :=
  let word := BitVec.ofInt 32 s
  if word.extractLsb' 0 7 = 0 then (word.extractLsb' 8 8).toNat else 1

theorem bitCode_eq (s : WaitStatus) : s.bitCode = s.severity := by
  have hlow : ∀ n : Int, (BitVec.ofInt 32 n).extractLsb' 0 7 = 0 ↔ n % 128 = 0 := by
    intro n
    rw [← BitVec.toNat_inj, BitVec.extractLsb'_toNat, BitVec.toNat_ofInt, Nat.shiftRight_eq_div_pow]
    show _ % 2 ^ 7 = 0 ↔ _
    omega
  have hcode : (((BitVec.ofInt 32 s).extractLsb' 8 8).toNat : Int) = s / 256 % 256 := by
    rw [BitVec.extractLsb'_toNat, BitVec.toNat_ofInt, Nat.shiftRight_eq_div_pow]
    omega
  unfold bitCode severity exited exitCode
  dsimp only
  rw [hcode]
  by_cases hs : s % 128 = 0
  · rw [if_pos ((hlow s).2 hs), if_pos (by simp [hs])]
  · rw [if_neg (fun h => hs ((hlow s).1 h)), if_neg (by simp [hs])]

theorem foldl_fold_eq (code : Int) (l : List WaitStatus) :
    l.foldl fold code = (l.map bitCode).foldl max code := by
  induction l generalizing code with
  | nil => rfl
  | cons s l ih => rw [List.foldl_cons, ih, List.map_cons, List.foldl_cons, bitCode_eq, fold]

theorem foldl_fold_perm (h : l.Perm m) (code : Int) : l.foldl fold code = m.foldl fold code :=
  h.foldl_eq' (fun s _ t _ code => fold_right_comm code s t) code

theorem le_foldl_fold (code : Int) (l : List WaitStatus) : code ≤ l.foldl fold code := by
  induction l generalizing code with
  | nil => exact Int.le_refl code
  | cons s l ih =>
      have := ih (fold code s)
      rw [List.foldl_cons]
      unfold fold at this ⊢
      omega

theorem severity_le_foldl_fold (hs : s ∈ l) (code : Int) : s.severity ≤ l.foldl fold code := by
  induction l generalizing code with
  | nil => cases hs
  | cons t l ih =>
      rw [List.foldl_cons]
      rcases List.mem_cons.1 hs with rfl | hs
      · have := le_foldl_fold (fold code s) l
        unfold fold at this ⊢
        omega
      · exact ih hs _

theorem foldl_fold_le (hcode : code ≤ bound) (hl : ∀ s ∈ l, s.severity ≤ bound) :
    l.foldl fold code ≤ bound := by
  induction l generalizing code with
  | nil => exact hcode
  | cons s l ih =>
      refine ih ?_ fun t ht => hl t (List.mem_cons_of_mem _ ht)
      have := hl s List.mem_cons_self
      unfold fold
      omega

/-- A status is harmless if it is that of an exit with code 0. -/
theorem severity_eq_zero : s.severity = 0 ↔ s.exited = true ∧ s.exitCode = 0 := by
  unfold severity
  cases s.exited <;> simp

theorem foldl_fold_eq_zero :
    l.foldl fold 0 = 0 ↔ ∀ s ∈ l, s.exited = true ∧ s.exitCode = 0 := by
  constructor
  · intro hzero s hs
    have hle := severity_le_foldl_fold hs 0
    have hnn := s.severity_nonneg
    exact severity_eq_zero.1 (by omega)
  · intro hall
    have hge := le_foldl_fold 0 l
    have hle := foldl_fold_le (Int.le_refl 0) fun s hs =>
      Int.le_of_eq (severity_eq_zero.2 (hall s hs))
    omega

end WaitStatus

/-! ### How children end -/

/-- The status with which the `i`-th child ends: failure if it does not get to its command, and
otherwise that of its first end among the events, or success if it has to be ended. -/
def endStatus (p : Platform) (events : List Event) (i : Nat) (command : Command) : WaitStatus :=
  if p.setupFails || (p.execFailure i command).isSome then .ofExit 1
  else (Event.ending i events).getD 0

theorem Host.status_newChild (h : Host) (pipe : Nat) (command : Command) (echo : Option Bytes) :
    (h.newChild pipe command echo).status =
      if h.platform.setupFails || (h.platform.execFailure h.children.length command).isSome then
        some (.ofExit 1)
      else none := by
  unfold newChild
  dsimp only
  rw [Call.isSome_obstacle]

namespace Session

variable {s : Session} {statuses : List WaitStatus}

theorem Sound.status_ne_none (h : s.Sound) (hrun : s.board.running = []) {i : Nat} {c : Child}
    (hc : s.host.children[i]? = some c) : c.status ≠ none := by
  cases hcoll : c.collected with
  | true => exact (h.fits i c hc).ended hcoll
  | false =>
      have := h.unreaped_of_child hc hcoll
      rw [Board.unreaped_eq_nil h.board.toCounts hrun] at this
      exact absurd this List.not_mem_nil

/-- When nothing runs any more, the status of every child has been folded once. -/
theorem Sound.exitCode_eq (h : s.Sound) (hrun : s.board.running = [])
    (hstatuses : s.host.children.map Child.status = statuses.map some) :
    s.board.exitCode = statuses.foldl WaitStatus.fold 0 := by
  have hexits : (s.journal.exits.map Prod.snd).map some =
      s.host.collections.map fun i => (s.host.children[i]?).bind Child.status := by
    have := congrArg (List.map Prod.snd) h.ledger.exits
    rw [List.map_map, List.map_map] at this
    rw [List.map_map]
    exact this
  have hrange : (List.range s.host.children.length).map
      (fun i => (s.host.children[i]?).bind Child.status) = statuses.map some := by
    rw [← hstatuses]
    refine List.ext_getElem? fun i => ?_
    rw [List.getElem?_map, List.getElem?_map]
    by_cases hi : i < s.host.children.length
    · rw [List.getElem?_range hi, Option.map_some, List.getElem?_eq_getElem hi]
      rfl
    · rw [List.getElem?_eq_none (by simpa using hi), List.getElem?_eq_none (by simpa using hi)]
      rfl
  have hperm : ((s.journal.exits.map Prod.snd).map some).Perm (statuses.map some) := by
    rw [hexits, ← hrange]
    exact (h.all_collected hrun).map _
  have hcancel : ∀ l : List WaitStatus, (l.map some).filterMap id = l := by simp
  have hperm := hperm.filterMap id
  rw [hcancel, hcancel] at hperm
  rw [h.ledger.exitCode]
  exact WaitStatus.foldl_fold_perm hperm 0

end Session

namespace Run

variable {r r₀ : Run} {texts : List Bytes}

/-- The status with which a child ends, for all that happens in a run that begins with `r₀`. -/
def ended (r₀ : Run) : Nat → Command → WaitStatus :=
  endStatus r₀.session.host.platform r₀.session.host.rounds.flatten

theorem newborns_ended (r₀ : Run) : Newborns Child.endsWith r₀.ended r₀ := by
  intro h pipe command hplatform
  rw [Child.endsWith_foldl_undergo, h.status_newChild]
  unfold ended endStatus
  rw [hplatform]
  split <;> rfl

theorem Foreseen.statuses_eq (h : Foreseen Child.endsWith r₀.ended r₀ texts r)
    (hs : r.Steady) (hdone : r.step = none) : r.session.host.children.map Child.status =
      (texts.mapIdx fun i text => r₀.ended i (r₀.leading ++ Line.words text)).map some := by
  obtain ⟨-, hrun, -⟩ := done_of_step_none hdone
  have hstatus : ∀ (i : Nat) (c : Child), r.session.host.children[i]? = some c →
      ∃ status, c.status = some status :=
    fun i c hc => Option.ne_none_iff_exists'.1 (hs.sound.status_ne_none hrun hc)
  rw [← h.map_eq hdone (g := Child.endsWith) fun i c hc => ?_]
  · rw [List.map_map]
    refine List.map_congr_left fun c hmem => ?_
    obtain ⟨i, hc⟩ := List.mem_iff_getElem?.1 hmem
    obtain ⟨status, heq⟩ := hstatus i c hc
    simp [Child.endsWith, heq]
  · obtain ⟨status, heq⟩ := hstatus i c hc
    rw [Child.endsWith_foldl_undergo, Child.endsWith, heq]
    rfl

theorem conclude_code {code : Int} (h : r.conclude.1 = .ok code) :
    code = r.session.board.exitCode := by
  obtain ⟨accepted, calls, heq⟩ := r.session.present_frame r.session.display.onFinish
  unfold conclude at h
  split at h
  · cases h
  · next s hs =>
      cases h
      rw [← show r.session.finish.2 = s from congrArg Prod.snd hs]
      unfold Session.finish
      rw [heq]

end Run

/-! ### Whole runs -/

/-- A run over valid lines folds the statuses with which its children should end, whenever it
returns; and it does so if no call of the parent fails. -/
theorem Config.run_folds_statuses {c : Config} {limits : Limits} {texts : List Bytes} (p : Platform)
    (rounds : List (List Event)) (handler : Handler) (hlimits : c.limits = .ok limits)
    (hvalid : ∀ text ∈ texts, Line.Valid c.leading text) :
    let statuses := texts.mapIdx fun i text =>
      endStatus p rounds.flatten i (c.leading ++ Line.words text)
    ∃ result, c.run (Host.fresh p rounds handler) (Source.ofLines texts) = .ok result ∧
      (p.faults.SpareParent → ∃ code, result.outcome = .ok code) ∧
      ∀ code, result.outcome = .ok code → code = statuses.foldl WaitStatus.fold 0 ∧
        result.final.session.host.children.map Child.status = statuses.map some := by
  intro statuses
  let r₀ := Run.prepare c limits (Host.fresh p rounds handler) (Source.ofLines texts)
  have hrun : c.run (Host.fresh p rounds handler) (Source.ofLines texts) = .ok r₀.execute := by
    unfold Config.run
    rw [hlimits]
  have hforeseen : ∀ r, Run.Reached r₀ r →
      Run.Foreseen Child.endsWith r₀.ended r₀ texts r := fun r hr =>
    Run.foreseen_of_reached Child.lasting_endsWith hvalid (Run.newborns_ended r₀) hr
  refine ⟨r₀.execute, hrun, Run.returns_of_spared hvalid, fun code hok => ?_⟩
  obtain ⟨n, done, hr, hdone, heq⟩ := Run.returned_of_execute hok
  obtain ⟨hsteady, -⟩ := Run.steady_of_reached hr
  obtain ⟨-, hnone, -⟩ := Run.done_of_step_none hdone
  have hstatuses := (hforeseen done hr).statuses_eq hsteady hdone
  have hended := Run.ended_conclude done n
  have hcode := Run.conclude_code (congrArg Prod.fst heq)
  rw [heq] at hended
  refine ⟨hcode.trans (hsteady.sound.exitCode_eq hnone hstatuses), ?_⟩
  rw [hended.children]
  exact hstatuses

/-- The exit code of a run over valid lines is the most severe of the statuses with which its
children end, and 0 if none is; so it is 0 exactly if every job exits with 0.  How a child ends
depends on its own events only, so the code depends neither on how those of different children
interleave nor on the limits and the presentation. -/
theorem Config.exit_code_exact (c : Config) (limits : Limits) (hlimits : c.limits = .ok limits)
    (p : Platform) (rounds : List (List Event)) (handler : Handler) (texts : List Bytes)
    (hvalid : ∀ text ∈ texts, Line.Valid c.leading text) :
    let statuses := texts.mapIdx fun i text =>
      endStatus p rounds.flatten i (c.leading ++ Line.words text)
    ∃ result, c.run (Host.fresh p rounds handler) (Source.ofLines texts) = .ok result ∧
      (p.faults.SpareParent → ∃ code, result.outcome = .ok code) ∧
      ∀ code, result.outcome = .ok code →
        code = (statuses.map WaitStatus.bitCode).foldl max 0 ∧
        result.final.session.host.children.map Child.status = statuses.map some ∧
        (0 ≤ code ∧ code ≤ 255) ∧
        (code = 0 ↔ ∀ s ∈ statuses, s.exited = true ∧ s.exitCode = 0) ∧
        ∀ (c' : Config) (limits' : Limits) (rounds' : List (List Event)) (handler' : Handler),
          c'.limits = .ok limits' → c'.leading = c.leading →
          (∀ i, Event.ending i rounds'.flatten = Event.ending i rounds.flatten) →
          ∃ result', c'.run (Host.fresh p rounds' handler') (Source.ofLines texts) = .ok result' ∧
            (p.faults.SpareParent → result'.outcome = .ok code) ∧
            ∀ code', result'.outcome = .ok code' → code' = code := by
  intro statuses
  obtain ⟨result, hrun, hreturns, hfolds⟩ := run_folds_statuses p rounds handler hlimits hvalid
  refine ⟨result, hrun, hreturns, fun code hok => ?_⟩
  obtain ⟨hcode, hstatuses⟩ := hfolds code hok
  refine ⟨by rw [hcode, WaitStatus.foldl_fold_eq], hstatuses, ⟨?_, ?_⟩, ?_, ?_⟩
  · exact hcode ▸ WaitStatus.le_foldl_fold 0 statuses
  · exact hcode ▸ WaitStatus.foldl_fold_le (by decide) fun s _ => s.severity_le
  · exact hcode ▸ WaitStatus.foldl_fold_eq_zero
  · intro c' limits' rounds' handler' hlimits' hleading hevents
    obtain ⟨result', hrun', hreturns', hfolds'⟩ := run_folds_statuses p rounds' handler'
      hlimits' (hleading ▸ hvalid)
    have hsame : ∀ code', result'.outcome = .ok code' → code' = code := by
      intro code' hok'
      rw [(hfolds' code' hok').1, hcode, hleading]
      congr 1
      refine congrArg (fun f => texts.mapIdx f) (funext fun i => funext fun text => ?_)
      unfold endStatus
      rw [hevents i]
    refine ⟨result', hrun', fun hspare => ?_, hsame⟩
    obtain ⟨code', hok'⟩ := hreturns' hspare
    rw [hok', hsame code' hok']

/-- The first job dies by a signal and the second exits with 3, in progress mode. -/
theorem Config.exit_code_exact_two_lines :
    ∃ result, (⟨2, some 3, false, some true, []⟩ : Config).run
        (Host.fresh {} [[.finish 1 768 false], [.finish 0 9 false]] .default)
        (Source.ofLines [[0x61], [0x62]]) = .ok result ∧
      result.outcome = .ok 3 ∧
      result.final.session.host.children.map Child.status = [some 9, some 768] := by
  have hvalid : ∀ text ∈ [[0x61], [0x62]], Line.Valid [] text := by decide
  obtain ⟨result, hrun, hreturns, hexact⟩ := Config.exit_code_exact
    ⟨2, some 3, false, some true, []⟩ ⟨2, 3, by decide, by decide⟩ rfl {}
    [[.finish 1 768 false], [.finish 0 9 false]] .default [[0x61], [0x62]] hvalid
  obtain ⟨code, hok⟩ := hreturns ⟨rfl, rfl, rfl, rfl, rfl⟩
  obtain ⟨hcode, hstatuses, -⟩ := hexact code hok
  refine ⟨result, hrun, hok.trans (congrArg Except.ok (hcode.trans ?_)), hstatuses⟩
  decide

end OrderedJobs
