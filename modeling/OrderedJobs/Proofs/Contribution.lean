import OrderedJobs.Proofs.ChildOutput

/-! # What a job contributes

What the `i`-th child writes into its pipe is determined by the platform, its command and its own
events (`contribution`), and this is the fate of the child from its birth on (`fate_newChild`).  Its
calls fall into those that put its outputs in place (`Call.setup`) and those that perform its
command (`Call.perform`): a failure of the former goes to the error output of the parent, a failure
of the latter into the pipe. -/

namespace OrderedJobs

/-- A child fails before its outputs lead into its pipe. -/
def Platform.setupFails (p : Platform) : Bool :=
  (p.deathSignals && p.faults.childDeathSignal.isSome) || p.faults.nullDevice.isSome

/-- Why the `i`-th child cannot execute a command, if so. -/
def Platform.execFailure (p : Platform) (i : Nat) (command : Command) : Option String :=
  if command.isEmpty then some "list index out of range"
  else (p.execFailures.lookup i).map ExecFailure.message

/-- What the `i`-th child writes into its pipe in the end: nothing if it fails early; and otherwise
its echo, and then the reason why its command cannot be executed, or else what it says by its
events. -/
def contribution (p : Platform) (quiet : Bool) (events : List Event) (i : Nat)
    (command : Command) : Bytes :=
  if p.setupFails then []
  else (if quiet then [] else command.echo false) ++
    match p.execFailure i command with
    | some text => Call.diagnostic text
    | none => Event.said i events

namespace Call

/-- The calls that put the outputs of a child in place. -/
def setup (deathSignals : Bool) (writeEnd : Nat) : List Call :=
  [.defaultSignal Signal.brokenPipe] ++
  (if deathSignals then [.deathSignal Signal.terminate] else []) ++
  [.openNull, .duplicate nullDescriptor 0, .duplicate writeEnd 1, .duplicate writeEnd 2]

/-- The calls that perform a command. -/
def perform (command : Command) (echo : Option Bytes) : List Call :=
  (match echo with
    | none | some [] => []
    | some data => [.write 1 data]) ++
  (match command with
    | [] => []
    | file :: _ => [.exec file command])

variable {fails : Call → Option String} {l m : List Call} {text : String}
  {p : Platform} {i writeEnd : Nat} {command : Command} {echo : Option Bytes}

theorem plan_eq (deathSignals : Bool) (writeEnd : Nat) (command : Command) (echo : Option Bytes) :
    plan deathSignals writeEnd command echo =
      setup deathSignals writeEnd ++ perform command echo :=
  List.append_assoc ..

theorem attempt_append_of_none (h : (attempt fails l).2 = none) :
    attempt fails (l ++ m) = (l ++ (attempt fails m).1, (attempt fails m).2) := by
  induction l with
  | nil => rfl
  | cons c l ih =>
      rw [List.cons_append, attempt]
      rw [attempt] at h
      cases hc : fails c with
      | some text => rw [hc] at h; cases h
      | none =>
          rw [hc] at h
          dsimp only at h ⊢
          rw [ih h]
          rfl

theorem attempt_append_of_some (h : (attempt fails l).2 = some text) :
    attempt fails (l ++ m) = attempt fails l := by
  induction l with
  | nil => cases h
  | cons c l ih =>
      rw [List.cons_append, attempt, attempt]
      rw [attempt] at h
      cases hc : fails c with
      | some text => rfl
      | none =>
          rw [hc] at h
          dsimp only at h ⊢
          rw [ih h]

/-! ### Setting up -/

theorem isSome_attempt_setup (p : Platform) (i writeEnd : Nat) :
    (attempt (failure p i) (setup p.deathSignals writeEnd)).2.isSome = p.setupFails := by
  unfold setup Platform.setupFails
  cases p.deathSignals <;> cases hd : p.faults.childDeathSignal <;>
    cases hn : p.faults.nullDevice <;> simp [attempt, failure, hd, hn]

/-- Nothing is redirected or written before a setup that fails has failed. -/
theorem attempt_setup_idle (h : p.setupFails = true) {g : List Call → Bytes}
    (hdefault : ∀ n rest, g (.defaultSignal n :: rest) = g rest)
    (hdeath : ∀ n rest, g (.deathSignal n :: rest) = g rest)
    (hnull : ∀ rest, g (.openNull :: rest) = g rest) (rest : List Call) :
    g ((attempt (failure p i) (setup p.deathSignals writeEnd)).1 ++ rest) = g rest := by
  unfold setup
  unfold Platform.setupFails at h
  cases hs : p.deathSignals <;> cases hd : p.faults.childDeathSignal <;>
    cases hn : p.faults.nullDevice <;> simp_all [attempt, failure]

theorem piped_attempt_setup (h : p.setupFails = true) (rest : List Call) :
    piped writeEnd [] ((attempt (failure p i) (setup p.deathSignals writeEnd)).1 ++ rest) =
      piped writeEnd [] rest :=
  attempt_setup_idle h (fun _ _ => rfl) (fun _ _ => rfl) (fun _ => rfl) rest

/-- After the setup, both outputs lead into the pipe. -/
theorem piped_setup (deathSignals : Bool) (hne : nullDescriptor ≠ writeEnd) (rest : List Call) :
    piped writeEnd [] (setup deathSignals writeEnd ++ rest) = piped writeEnd [2, 1] rest := by
  unfold setup
  cases deathSignals <;> simp [piped, hne]

/-! ### Performing -/

theorem attempt_perform (p : Platform) (i : Nat) (command : Command) (echo : Option Bytes) :
    (attempt (failure p i) (perform command echo)).2.or
      (if command.isEmpty then some "list index out of range" else none) =
        p.execFailure i command := by
  unfold Platform.execFailure perform
  rcases echo with _ | _ | ⟨x, data⟩ <;> rcases command with _ | ⟨file, words⟩ <;>
    cases hl : p.execFailures.lookup i <;> simp [attempt, failure, hl]

theorem piped_attempt_perform (p : Platform) (i : Nat) (command : Command) (echo : Option Bytes)
    (rest : List Call) :
    piped writeEnd [2, 1] ((attempt (failure p i) (perform command echo)).1 ++ rest) =
      echo.getD [] ++ piped writeEnd [2, 1] rest := by
  unfold perform
  rcases echo with _ | _ | ⟨x, data⟩ <;> rcases command with _ | ⟨file, words⟩ <;>
    cases hl : p.execFailures.lookup i <;> simp [attempt, failure, hl, piped]

/-! ### The whole way -/

/-- A child does not get to its command if its setup fails, or if its command cannot be executed. -/
theorem isSome_obstacle (p : Platform) (i writeEnd : Nat) (command : Command)
    (echo : Option Bytes) : (obstacle p i writeEnd command echo).isSome =
      (p.setupFails || (p.execFailure i command).isSome) := by
  unfold obstacle
  rw [plan_eq, ← isSome_attempt_setup p i writeEnd]
  cases hs : (attempt (failure p i) (setup p.deathSignals writeEnd)).2 with
  | some text =>
      rw [attempt_append_of_some hs, hs]
      rfl
  | none =>
      rw [attempt_append_of_none hs]
      dsimp only
      rw [attempt_perform]
      rfl

theorem piped_trace (hne : nullDescriptor ≠ writeEnd) (p : Platform) (i : Nat) (command : Command)
    (echo : Option Bytes) : piped writeEnd [] (trace p i writeEnd command echo) =
      if p.setupFails then []
      else echo.getD [] ++ ((p.execFailure i command).elim [] diagnostic) := by
  unfold trace obstacle
  rw [plan_eq, ← isSome_attempt_setup p i writeEnd]
  cases hs : (attempt (failure p i) (setup p.deathSignals writeEnd)).2 with
  | some text =>
      have hfails : p.setupFails = true := by
        rw [← isSome_attempt_setup p i writeEnd, hs]
        rfl
      rw [attempt_append_of_some hs, hs, piped_attempt_setup hfails]
      simp [piped]
  | none =>
      rw [attempt_append_of_none hs]
      dsimp only
      rw [attempt_perform, List.append_assoc, piped_setup _ hne, piped_attempt_perform]
      cases p.execFailure i command with
      | none => simp [piped]
      | some text => simp [piped]

end Call

/-- A child that is just born has its contribution before it. -/
theorem Host.fate_newChild (h : Host) (pipe : Nat) (command : Command) (quiet : Bool)
    (events : List Event) :
    (h.newChild pipe command (if quiet then none else some (command.echo false))).fate
        h.children.length events =
      contribution h.platform quiet events h.children.length command := by
  have hne : Call.nullDescriptor ≠ (Descriptor.writeEnd pipe).number := by
    show 3 ≠ 101 + 2 * pipe
    omega
  have hecho : (if quiet then none else some (command.echo false)).getD [] =
      if quiet then [] else command.echo false := by
    cases quiet <;> rfl
  let echo := if quiet then none else some (command.echo false)
  have hwaiting : (h.newChild pipe command echo).written =
      if h.platform.setupFails then [] else (if quiet then [] else command.echo false) ++
        (h.platform.execFailure h.children.length command).elim [] Call.diagnostic := by
    rw [← hecho]
    exact Call.piped_trace hne _ _ _ _
  have hwriting : (h.newChild pipe command echo).writing =
      !(h.platform.setupFails || (h.platform.execFailure h.children.length command).isSome) := by
    rw [← Call.isSome_obstacle h.platform h.children.length (Descriptor.writeEnd pipe).number
      command echo]
    unfold Child.writing newChild
    dsimp only
    generalize (Call.obstacle h.platform h.children.length (Descriptor.writeEnd pipe).number command
      echo).isSome = failed
    cases failed <;> rfl
  unfold contribution Child.fate
  rw [hwaiting, hwriting]
  cases h.platform.setupFails with
  | true => simp
  | false =>
      cases h.platform.execFailure h.children.length command with
      | some text => simp
      | none => simp

end OrderedJobs
