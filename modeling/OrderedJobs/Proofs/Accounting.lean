import Mathlib.Data.List.Nodup
import OrderedJobs.Proofs.PlainCalls

/-! # Accounting for descriptors

Along any calls that misuse no descriptor, each end of a pipe is accounted for: it was open before
or its pipe was made, and it was closed or is open now (`Calls.accounts`).  A call that misuses none
uses open descriptors only (`SystemCall.mem_of_uses`), and what was closed is not open any more; so
no descriptor is used after it was closed (`Calls.unclosed`). -/

namespace OrderedJobs

namespace Host

/-- The end from which exit notices are read. -/
def noticeEnd (h : Host) : List Descriptor :=
  match h.wakeup with
  | some (.writeEnd p) => [.readEnd p]
  | _ => []

/-- The end from which the output of a child is read. -/
def outputEnd (h : Host) (child : Nat) : List Descriptor :=
  match h.children[child]? with
  | some c => [.readEnd c.pipe]
  | none => []

end Host

namespace SystemCall

/-- The call closes a descriptor. -/
def closes (d : Descriptor) : SystemCall → Bool
  | close d' => decide (d' = d)
  | _ => false

/-- The descriptors that a call closes, polls or reads from. -/
def uses (h : Host) : SystemCall → List Descriptor
  | close d => [d]
  | poll none | takeNotices => h.noticeEnd
  | poll (some child) => h.noticeEnd ++ h.outputEnd child
  | read child _ => h.outputEnd child
  | _ => []

end SystemCall

namespace Host

variable {h : Host} {d : Descriptor}

/-! ### Misuse -/

theorem mem_of_touch (hm : (h.touch d).misused ≤ h.misused) : d ∈ h.descriptors := by
  unfold touch at hm
  split at hm
  · assumption
  · exact absurd hm (Nat.not_succ_le_self _)

theorem mem_of_useNotices (hm : h.useNotices.misused ≤ h.misused) (hd : d ∈ h.noticeEnd) :
    d ∈ h.descriptors := by
  unfold noticeEnd at hd
  unfold useNotices at hm
  split at hd
  · next p heq =>
      rw [heq] at hm
      rw [List.mem_singleton.1 hd]
      exact mem_of_touch hm
  · cases hd

theorem mem_of_useOutput {i : Nat} (hm : (h.useOutput i).misused ≤ h.misused)
    (hd : d ∈ h.outputEnd i) : d ∈ h.descriptors := by
  unfold outputEnd at hd
  unfold useOutput at hm
  split at hd
  · next c heq =>
      rw [heq] at hm
      rw [List.mem_singleton.1 hd]
      exact mem_of_touch hm
  · cases hd

/-- The ends that a wait is for. -/
theorem mem_of_watch {active : Option Nat} (hm : (h.watch active).misused ≤ h.misused)
    (hd : d ∈ (SystemCall.poll active).uses h) : d ∈ h.descriptors := by
  have hnotices := h.keeps_useNotices
  cases active with
  | none => exact mem_of_useNotices hm hd
  | some i =>
      have houtput := h.useNotices.keeps_useOutput i
      have hfirst := houtput.misused
      have hm : (h.useNotices.useOutput i).misused ≤ h.misused := hm
      rcases List.mem_append.1 hd with hd | hd
      · exact mem_of_useNotices (Nat.le_trans hfirst hm) hd
      · have hsame : h.useNotices.outputEnd i = h.outputEnd i := by
          obtain ⟨misused, hframe⟩ := h.useNotices_frame
          rw [hframe]
          rfl
        rw [← hnotices.descriptors]
        exact mem_of_useOutput (Nat.le_trans hm hnotices.misused) (hsame ▸ hd)

theorem mem_of_close (hm : (h.close d).misused ≤ h.misused) : d ∈ h.descriptors := by
  unfold close at hm
  split at hm
  · assumption
  · exact absurd hm (Nat.not_succ_le_self _)

theorem mem_of_read {i limit : Nat} (hm : (h.read i limit).2.misused ≤ h.misused)
    (hd : d ∈ h.outputEnd i) : d ∈ h.descriptors := by
  unfold read at hm
  split at hm
  · exact mem_of_useOutput hm hd
  · next c hc =>
      split at hm
      · exact mem_of_useOutput hm hd
      · next hopen =>
          unfold outputEnd at hd
          rw [hc] at hd
          rw [List.mem_singleton.1 hd]
          exact Classical.not_not.1 hopen

end Host

/-- A call that misuses no descriptor uses open ones only. -/
theorem SystemCall.mem_of_uses {call : SystemCall} {h : Host} {d : Descriptor}
    (hm : (call.effect h).misused ≤ h.misused) (hd : d ∈ call.uses h) : d ∈ h.descriptors := by
  cases call with
  | makePipe | fork | setSignals | collect | write | kill => cases hd
  | close d' =>
      rw [List.mem_singleton.1 hd]
      exact Host.mem_of_close hm
  | poll active =>
      have hlater : (h.poll active).2.misused = (h.watch active).misused :=
        (Host.later_watch active h).misused
      exact Host.mem_of_watch (hlater ▸ hm) hd
  | takeNotices => exact Host.mem_of_useNotices hm hd
  | read child limit => exact Host.mem_of_read hm hd

/-! ### The balance -/

/-- How often the descriptor is among the ends of the pipes from one number up to another. -/
def Descriptor.made (d : Descriptor) (first last : Nat) : Nat :=
  if first ≤ d.pipe ∧ d.pipe < last then 1 else 0

/-- Each pipe has its two ends. -/
theorem Descriptor.count_ends (d : Descriptor) (pipe : Nat) :
    [readEnd pipe, writeEnd pipe].count d = d.made pipe (pipe + 1) := by
  unfold made
  by_cases hp : d.pipe = pipe
  · rw [if_pos (by omega), ← hp]
    cases d <;> simp [Descriptor.pipe]
  · rw [if_neg (by omega), List.count_eq_zero]
    rintro hmem
    simp only [List.mem_cons, List.not_mem_nil, or_false] at hmem
    rcases hmem with rfl | rfl <;> exact hp rfl

namespace Host

variable {h h' : Host} {closed closed' : Descriptor → Nat} {d : Descriptor}

/-- Every descriptor that was open or made has been closed or is open. -/
structure Accounted (closed : Descriptor → Nat) (h h' : Host) : Prop where
  pipes : h.pipes ≤ h'.pipes
  balance : ∀ d, closed d + h'.descriptors.count d =
    h.descriptors.count d + d.made h.pipes h'.pipes

/-- No descriptor is open twice, and the pipes of all have been made. -/
structure Tidy (h : Host) : Prop where
  nodup : h.descriptors.Nodup
  made : ∀ d ∈ h.descriptors, d.pipe < h.pipes

theorem accounted_of_eq (hdescriptors : h'.descriptors = h.descriptors)
    (hpipes : h'.pipes = h.pipes) : Accounted (fun _ => 0) h h' where
  pipes := Nat.le_of_eq hpipes.symm
  balance := by
    intro d
    rw [hdescriptors, hpipes, Descriptor.made, if_neg (by omega)]
    exact Nat.add_comm _ _

theorem accounted_of_keeps (hk : h.Keeps h') : Accounted (fun _ => 0) h h' :=
  accounted_of_eq hk.descriptors hk.pipes

theorem Accounted.trans {h₁ h₂ h₃ : Host} (h : Accounted closed h₁ h₂)
    (k : Accounted closed' h₂ h₃) : Accounted (fun d => closed d + closed' d) h₁ h₃ where
  pipes := Nat.le_trans h.pipes k.pipes
  balance := by
    intro d
    have hfirst := h.balance d
    have hsecond := k.balance d
    have hpipes := h.pipes
    have hpipes' := k.pipes
    unfold Descriptor.made at hfirst hsecond ⊢
    split_ifs at hfirst hsecond ⊢ <;> omega

theorem Tidy.balance_le (ht : h.Tidy) (d : Descriptor) (last : Nat) :
    h.descriptors.count d + d.made h.pipes last ≤ 1 := by
  have hcount := List.nodup_iff_count_le_one.1 ht.nodup d
  unfold Descriptor.made
  split_ifs with hmade
  · have hnot : d ∉ h.descriptors := fun hmem => Nat.not_lt.2 hmade.1 (ht.made d hmem)
    have hzero := List.count_eq_zero_of_not_mem hnot
    omega
  · exact hcount

theorem accounted_makePipe (h : Host) : Accounted (fun _ => 0) h h.makePipe.2 := by
  cases hpipe : h.platform.faults.pipe.error? h.pipeCalls with
  | some e =>
      rw [makePipe_error hpipe]
      exact accounted_of_eq rfl rfl
  | none =>
      rw [makePipe_ok hpipe]
      refine ⟨Nat.le_succ _, fun d => ?_⟩
      show 0 + (h.descriptors ++ [Descriptor.readEnd h.pipes, .writeEnd h.pipes]).count d =
        _ + d.made h.pipes (h.pipes + 1)
      rw [List.count_append, Descriptor.count_ends, Nat.zero_add]

theorem accounted_fork (h : Host) (pipe : Nat) (command : Command) (echo : Option Bytes) :
    Accounted (fun _ => 0) h (h.fork pipe command echo).2 := by
  cases hfork : h.platform.faults.fork.error? h.forkCalls with
  | some e =>
      rw [fork_error hfork]
      exact accounted_of_eq rfl rfl
  | none =>
      rw [fork_ok hfork]
      exact accounted_of_eq (grown_keeps Host.descriptors (fun _ => rfl) rfl)
        (grown_keeps Host.pipes (fun _ => rfl) rfl)

theorem accounted_close (hd : d ∈ h.descriptors) :
    Accounted (fun d' => ((SystemCall.close d).closes d').toNat) h (h.close d) := by
  rw [close_eq hd]
  refine ⟨Nat.le_refl _, fun d' => ?_⟩
  have hnone : d'.made h.pipes h.pipes = 0 := if_neg (by omega)
  show _ + (h.descriptors.erase d).count d' = _ + d'.made h.pipes h.pipes
  rw [hnone]
  by_cases heq : d = d'
  · subst heq
    have hpos := List.count_pos_iff.2 hd
    have hself : (SystemCall.close d).closes d = true := decide_eq_true rfl
    rw [hself, List.count_erase_self, Bool.toNat_true]
    omega
  · have hother : (SystemCall.close d).closes d' = false := decide_eq_false heq
    rw [hother, List.count_erase_of_ne (Ne.symm heq), Bool.toNat_false]
    omega

end Host

namespace SystemCall

variable {call : SystemCall}

theorem misused_le_effect (call : SystemCall) (h : Host) :
    h.misused ≤ (call.effect h).misused := by
  cases call with
  | makePipe =>
      show _ ≤ h.makePipe.2.misused
      cases hpipe : h.platform.faults.pipe.error? h.pipeCalls with
      | some e => exact Nat.le_of_eq (by rw [Host.makePipe_error hpipe])
      | none => exact Nat.le_of_eq (by rw [Host.makePipe_ok hpipe]; rfl)
  | fork pipe command echo =>
      show _ ≤ (h.fork pipe command echo).2.misused
      cases hfork : h.platform.faults.fork.error? h.forkCalls with
      | some e => exact Nat.le_of_eq (by rw [Host.fork_error hfork])
      | none =>
          rw [Host.fork_ok hfork]
          exact Nat.le_of_eq (Host.grown_keeps Host.misused (fun _ => rfl) rfl).symm
  | close d =>
      show _ ≤ (h.close d).misused
      unfold Host.close
      split
      · exact Nat.le_refl _
      · exact Nat.le_succ _
  | setSignals => exact Nat.le_refl _
  | poll active => exact (h.keeps_poll active).misused
  | takeNotices => exact h.keeps_takeNotices.misused
  | collect pid => exact (h.keeps_collect pid).misused
  | read child limit => exact (h.keeps_read child limit).misused
  | write data => exact (h.keeps_write data).misused
  | kill pid signal => exact (h.keeps_kill pid signal).misused

/-- What one call closes, if it misuses no descriptor. -/
theorem accounted_effect (h : Host) (hm : (call.effect h).misused ≤ h.misused) :
    Host.Accounted (fun d => (call.closes d).toNat) h (call.effect h) := by
  cases call with
  | makePipe => exact h.accounted_makePipe
  | fork pipe command echo => exact h.accounted_fork pipe command echo
  | close d => exact Host.accounted_close (Host.mem_of_close hm)
  | setSignals => exact Host.accounted_of_eq rfl rfl
  | poll active => exact Host.accounted_of_keeps (h.keeps_poll active)
  | takeNotices => exact Host.accounted_of_keeps h.keeps_takeNotices
  | collect pid => exact Host.accounted_of_keeps (h.keeps_collect pid)
  | read child limit => exact Host.accounted_of_keeps (h.keeps_read child limit)
  | write data => exact Host.accounted_of_keeps (h.keeps_write data)
  | kill pid signal => exact Host.accounted_of_keeps (h.keeps_kill pid signal)

end SystemCall

/-! ### Along the calls -/

namespace Calls

variable {h h' : Host} {e : Entry} {es fs : List Entry} {d : Descriptor}

theorem misused_le (hc : Calls h es h') : h.misused ≤ h'.misused := by
  induction hc with
  | nil h => exact Nat.le_refl _
  | @cons h h' e es hhost _ ih =>
      have hfirst := e.call.misused_le_effect e.host
      rw [← hhost]
      exact Nat.le_trans hfirst ih

/-- Along calls that misuse no descriptor, what was open or made has been closed or is open. -/
theorem accounts (hc : Calls h es h') (hm : h'.misused ≤ h.misused) :
    Host.Accounted (fun d => es.countP (·.call.closes d)) h h' := by
  induction hc with
  | nil h => exact Host.accounted_of_eq rfl rfl
  | @cons h h' e es hhost hrest ih =>
      subst hhost
      have hfirst := e.call.misused_le_effect e.host
      have hlater := hrest.misused_le
      have hstep : Host.Accounted _ e.host e.after :=
        SystemCall.accounted_effect e.host (Nat.le_trans hlater hm)
      have hall := hstep.trans (ih (Nat.le_trans hm hfirst))
      refine ⟨hall.pipes, fun d => ?_⟩
      rw [← hall.balance d, List.countP_cons]
      cases e.call.closes d <;> simp [Nat.add_comm]

/-- No descriptor is closed, polled or read after it was closed. -/
theorem unclosed (hc : Calls h (es ++ e :: fs) h') (ht : h.Tidy) (hm : h'.misused ≤ h.misused)
    (hd : d ∈ e.call.uses e.host) :
    d ∈ e.host.descriptors ∧ es.countP (·.call.closes d) = 0 := by
  obtain ⟨hbefore, hafter⟩ := hc.at_entry
  have hfirst := hbefore.misused_le
  have hlast := hafter.misused_le
  have heffect := e.call.misused_le_effect e.host
  have hopen : d ∈ e.host.descriptors :=
    SystemCall.mem_of_uses (Nat.le_trans hlast (Nat.le_trans hm hfirst)) hd
  refine ⟨hopen, ?_⟩
  have hbalance := (hbefore.accounts (Nat.le_trans heffect (Nat.le_trans hlast hm))).balance d
  have hle := ht.balance_le d e.host.pipes
  have hpos := List.count_pos_iff.2 hopen
  omega

end Calls

end OrderedJobs
