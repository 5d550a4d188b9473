import OrderedJobs.Proofs.Contribution

/-! # The way of a child to its command

A child is created with the code of its parent, and must neither go on with it nor let its command
begin on half a preparation.  It makes the calls of its preparation in order (`Call.preparation`),
and then executes its command.  There are four ways for this to end (`Call.Arrival`): the command is
executed; the preparation is cut at a call that fails, and then nothing has been redirected and the
reason goes to the error output of the parent; the command cannot be executed, or there is none, and
then the reason goes into the pipe, behind the echo.  Every child goes one of them
(`Call.arrives`), and what a parent may rely on is read off from the four (`Call.Abides`,
`Host.child_protocol`). -/

namespace OrderedJobs

namespace Call

variable {fails : Call → Option String} {l before after : List Call} {call : Call} {text : String}
  {p : Platform} {i writeEnd : Nat} {command : Command} {echo : Option Bytes}

/-! ### Calls up to the first that fails -/

theorem attempt_of_succeeds (h : ∀ c ∈ l, fails c = none) : attempt fails l = (l, none) := by
  induction l with
  | nil => rfl
  | cons c l ih =>
      rw [List.forall_mem_cons] at h
      rw [attempt, h.1, ih h.2]

theorem attempt_of_fails (h : ∀ c ∈ before, fails c = none) (hcall : fails call = some text) :
    attempt fails (before ++ call :: after) = (before ++ [call], some text) := by
  rw [attempt_append_of_none (by rw [attempt_of_succeeds h]), attempt, hcall]

/-- The first call of a list that fails, fails in this way. -/
def FailsFirst (fails : Call → Option String) (l : List Call) (text : String) : Prop :=
  ∃ before call after, l = before ++ call :: after ∧ (∀ c ∈ before, fails c = none) ∧
    fails call = some text

theorem succeed_or_fail (fails : Call → Option String) (l : List Call) :
    (∀ c ∈ l, fails c = none) ∨ ∃ text, FailsFirst fails l text := by
  induction l with
  | nil => exact .inl fun c hc => absurd hc List.not_mem_nil
  | cons c l ih =>
      cases hc : fails c with
      | some text =>
          exact .inr ⟨text, [], c, l, rfl, fun c hc => absurd hc List.not_mem_nil, hc⟩
      | none =>
          rcases ih with hall | ⟨text, before, call, after, rfl, hbefore, hcall⟩
          · exact .inl (List.forall_mem_cons.2 ⟨hc, hall⟩)
          · exact .inr ⟨text, c :: before, call, after, rfl,
              List.forall_mem_cons.2 ⟨hc, hbefore⟩, hcall⟩

/-! ### The preparation -/

/-- The write of an echo, unless there is nothing to write. -/
def echoing : Option Bytes → List Call
  | none | some [] => []
  | some data => [.write 1 data]

/-- The calls before the execution of a command. -/
def preparation (deathSignals : Bool) (writeEnd : Nat) (echo : Option Bytes) : List Call :=
  setup deathSignals writeEnd ++ echoing echo

/-- The child does not go on after the call: it has exited, or it executes its command. -/
def final (fails : Call → Option String) : Call → Bool
  | exec file command => (fails (.exec file command)).isNone
  | exit _ => true
  | _ => false

/-- The call writes to the error output. -/
def complains : Call → Bool
  | write 2 _ => true
  | _ => false

/-- No call of the preparation ends it, executes anything or writes to the error output. -/
theorem preparation_plain (fails : Call → Option String) (deathSignals : Bool) (writeEnd : Nat)
    (echo : Option Bytes) : ∀ c ∈ preparation deathSignals writeEnd echo,
      c.final fails = false ∧ c.complains = false ∧ ∀ file words, c ≠ .exec file words := by
  rcases echo with _ | _ | ⟨x, data⟩ <;> cases deathSignals <;>
    simp [preparation, setup, echoing, final, complains]

theorem perform_nil (echo : Option Bytes) : perform [] echo = echoing echo := by
  rcases echo with _ | _ | ⟨x, data⟩ <;> rfl

theorem perform_cons (file : Bytes) (words : Command) (echo : Option Bytes) :
    perform (file :: words) echo = echoing echo ++ [.exec file (file :: words)] := by
  rcases echo with _ | _ | ⟨x, data⟩ <;> rfl

theorem echoing_succeeds (p : Platform) (i : Nat) (echo : Option Bytes) :
    ∀ c ∈ echoing echo, failure p i c = none := by
  rcases echo with _ | _ | ⟨x, data⟩ <;> simp [echoing, failure]

/-! ### Where the bytes go -/

theorem piped_echoing (echo : Option Bytes) (rest : List Call) :
    piped writeEnd [2, 1] (echoing echo ++ rest) =
      echo.getD [] ++ piped writeEnd [2, 1] rest := by
  rcases echo with _ | _ | ⟨x, data⟩ <;> simp [echoing, piped]

/-- A complaint made after the redirections. -/
theorem piped_complaint (data : Bytes) :
    piped writeEnd [2, 1] [.write 2 data, .exit 1] = data := by
  simp [piped]

theorem piped_exec (redirected : List Nat) (file : Bytes) (command : Command) (rest : List Call) :
    piped writeEnd redirected ([.exec file command] ++ rest) = piped writeEnd redirected rest := rfl

/-- Nothing reaches the inherited error output once it has been redirected. -/
theorem stray_redirected {redirected : List Nat} (h : 2 ∈ redirected) (l : List Call) :
    stray writeEnd redirected l = [] := by
  induction l generalizing redirected with
  | nil => rfl
  | cons c l ih =>
      cases c with
      | duplicate source target =>
          rw [stray]
          split
          · exact ih (List.mem_cons_of_mem _ h)
          · exact ih h
      | write descriptor data => rw [stray, if_neg (fun hboth => hboth.2 h), ih h, List.nil_append]
      | defaultSignal | deathSignal | openNull | exec | exit => exact ih h

theorem stray_setup (deathSignals : Bool) (hne : nullDescriptor ≠ writeEnd) (rest : List Call) :
    stray writeEnd [] (setup deathSignals writeEnd ++ rest) = [] := by
  have hredirected : stray writeEnd [2, 1] rest = [] := stray_redirected (by decide) rest
  unfold setup
  cases deathSignals <;> simp [stray, hne, hredirected]

theorem stray_attempt_setup (h : p.setupFails = true) (rest : List Call) :
    stray writeEnd [] ((attempt (failure p i) (setup p.deathSignals writeEnd)).1 ++ rest) =
      stray writeEnd [] rest :=
  attempt_setup_idle h (fun _ _ => rfl) (fun _ _ => rfl) (fun _ => rfl) rest

/-! ### The four ways -/

/-- The ways of the `i`-th child to its command.  Each has the calls that the child makes, the bytes
that it leaves in its pipe and on the inherited error output, and the status with which it has
ended. -/
inductive Arrival (p : Platform) (i writeEnd : Nat) (command : Command) (echo : Option Bytes) :
    List Call → Bytes → Bytes → Option WaitStatus → Prop
  | executed {file : Bytes} {words : Command} (hcommand : command = file :: words)
      (hprepared : ∀ c ∈ preparation p.deathSignals writeEnd echo, failure p i c = none)
      (hexec : failure p i (.exec file command) = none) :
      Arrival p i writeEnd command echo
        (preparation p.deathSignals writeEnd echo ++ [.exec file command]) (echo.getD []) [] none
  /-- A call of the preparation fails, before anything has been redirected. -/
  | unprepared {before after : List Call} {call : Call} {text : String}
      (hsetup : setup p.deathSignals writeEnd = before ++ call :: after)
      (hbefore : ∀ c ∈ before, failure p i c = none) (hcall : failure p i call = some text) :
      Arrival p i writeEnd command echo
        (before ++ [call] ++ [.write 2 (diagnostic text), .exit 1]) [] (diagnostic text)
        (some (.ofExit 1))
  | refused {file : Bytes} {words : Command} {text : String} (hcommand : command = file :: words)
      (hprepared : ∀ c ∈ preparation p.deathSignals writeEnd echo, failure p i c = none)
      (hexec : failure p i (.exec file command) = some text) :
      Arrival p i writeEnd command echo
        (preparation p.deathSignals writeEnd echo ++ [.exec file command] ++
          [.write 2 (diagnostic text), .exit 1])
        (echo.getD [] ++ diagnostic text) [] (some (.ofExit 1))
  /-- There is no word to take for the file. -/
  | wordless (hcommand : command = [])
      (hprepared : ∀ c ∈ preparation p.deathSignals writeEnd echo, failure p i c = none) :
      Arrival p i writeEnd command echo
        (preparation p.deathSignals writeEnd echo ++
          [.write 2 (diagnostic "list index out of range"), .exit 1])
        (echo.getD [] ++ diagnostic "list index out of range") [] (some (.ofExit 1))

theorem plan_nil (deathSignals : Bool) (writeEnd : Nat) (echo : Option Bytes) :
    plan deathSignals writeEnd [] echo = preparation deathSignals writeEnd echo := by
  rw [plan_eq, perform_nil, preparation]

theorem plan_cons (deathSignals : Bool) (writeEnd : Nat) (file : Bytes) (words : Command)
    (echo : Option Bytes) : plan deathSignals writeEnd (file :: words) echo =
      preparation deathSignals writeEnd echo ++ [.exec file (file :: words)] := by
  rw [plan_eq, perform_cons, preparation, List.append_assoc]

theorem piped_preparation (hne : nullDescriptor ≠ writeEnd) (deathSignals : Bool)
    (echo : Option Bytes) (rest : List Call) :
    piped writeEnd [] (preparation deathSignals writeEnd echo ++ rest) =
      echo.getD [] ++ piped writeEnd [2, 1] rest := by
  rw [preparation, List.append_assoc, piped_setup _ hne, piped_echoing]

theorem stray_preparation (hne : nullDescriptor ≠ writeEnd) (deathSignals : Bool)
    (echo : Option Bytes) (rest : List Call) :
    stray writeEnd [] (preparation deathSignals writeEnd echo ++ rest) = [] := by
  rw [preparation, List.append_assoc, stray_setup _ hne]

/-- A child makes the calls up to the first that fails, and then says why and exits. -/
theorem trace_of_obstacle {made : List Call} {result : Option String}
    (hmade : attempt (failure p i) (plan p.deathSignals writeEnd command echo) = (made, result))
    (hobstacle : obstacle p i writeEnd command echo = some text) :
    trace p i writeEnd command echo = made ++ [.write 2 (diagnostic text), .exit 1] := by
  unfold trace
  rw [hmade, hobstacle]

/-- The calls that the `i`-th child makes are one of the four ways. -/
def Arrives (p : Platform) (i writeEnd : Nat) (command : Command) (echo : Option Bytes) : Prop :=
  let calls := trace p i writeEnd command echo
  Arrival p i writeEnd command echo calls (piped writeEnd [] calls) (stray writeEnd [] calls)
    (if (obstacle p i writeEnd command echo).isSome then some (.ofExit 1) else none)

theorem arrives_unprepared (hsetup : setup p.deathSignals writeEnd = before ++ call :: after)
    (hbefore : ∀ c ∈ before, failure p i c = none) (hcall : failure p i call = some text) :
    Arrives p i writeEnd command echo := by
  have hmade : attempt (failure p i) (setup p.deathSignals writeEnd) =
      (before ++ [call], some text) := by
    rw [hsetup, attempt_of_fails hbefore hcall]
  have hfails : p.setupFails = true := by
    rw [← isSome_attempt_setup p i writeEnd, hmade]
    rfl
  have hplan : attempt (failure p i) (plan p.deathSignals writeEnd command echo) =
      (before ++ [call], some text) := by
    rw [plan_eq, attempt_append_of_some (by rw [hmade]), hmade]
  have hobstacle : obstacle p i writeEnd command echo = some text := by
    unfold obstacle
    rw [hplan]
    rfl
  have hpiped : piped writeEnd [] (before ++ [call] ++ [.write 2 (diagnostic text), .exit 1]) =
      [] := by
    have hsilent : piped writeEnd [] ((attempt (failure p i) _).1 ++ _) = _ :=
      piped_attempt_setup hfails [.write 2 (diagnostic text), .exit 1]
    rw [hmade] at hsilent
    rw [hsilent]
    rfl
  have hstray : stray writeEnd [] (before ++ [call] ++ [.write 2 (diagnostic text), .exit 1]) =
      diagnostic text := by
    have hsilent : stray writeEnd [] ((attempt (failure p i) _).1 ++ _) = _ :=
      stray_attempt_setup hfails [.write 2 (diagnostic text), .exit 1]
    rw [hmade] at hsilent
    rw [hsilent]
    simp [stray]
  unfold Arrives
  dsimp only
  rw [trace_of_obstacle hplan hobstacle, hobstacle, hpiped, hstray]
  exact .unprepared hsetup hbefore hcall

section prepared

variable (hne : nullDescriptor ≠ writeEnd)
  (hprepared : ∀ c ∈ preparation p.deathSignals writeEnd echo, failure p i c = none)
include hne hprepared

theorem arrives_wordless : Arrives p i writeEnd [] echo := by
  have hmade := attempt_of_succeeds hprepared
  rw [← plan_nil] at hmade
  have hobstacle : obstacle p i writeEnd [] echo = some "list index out of range" := by
    unfold obstacle
    rw [hmade]
    rfl
  unfold Arrives
  dsimp only
  rw [trace_of_obstacle hmade hobstacle, hobstacle, plan_nil, piped_preparation hne,
    piped_complaint, stray_preparation hne]
  exact .wordless rfl hprepared

theorem arrives_refused {file : Bytes} {words : Command}
    (hexec : failure p i (.exec file (file :: words)) = some text) :
    Arrives p i writeEnd (file :: words) echo := by
  have hmade : attempt (failure p i) (preparation p.deathSignals writeEnd echo ++
      [.exec file (file :: words)]) = _ := attempt_of_fails hprepared hexec
  rw [← plan_cons] at hmade
  have hobstacle : obstacle p i writeEnd (file :: words) echo = some text := by
    unfold obstacle
    rw [hmade]
    rfl
  unfold Arrives
  dsimp only
  rw [trace_of_obstacle hmade hobstacle, hobstacle, plan_cons, List.append_assoc,
    piped_preparation hne, piped_exec, piped_complaint, stray_preparation hne, ← List.append_assoc]
  exact .refused rfl hprepared hexec

theorem arrives_executed {file : Bytes} {words : Command}
    (hexec : failure p i (.exec file (file :: words)) = none) :
    Arrives p i writeEnd (file :: words) echo := by
  have hmade := attempt_of_succeeds
    (List.forall_mem_append.2 ⟨hprepared, List.forall_mem_singleton.2 hexec⟩)
  rw [← plan_cons] at hmade
  have hobstacle : obstacle p i writeEnd (file :: words) echo = none := by
    unfold obstacle
    rw [hmade]
    rfl
  have htrace : trace p i writeEnd (file :: words) echo =
      preparation p.deathSignals writeEnd echo ++ [.exec file (file :: words)] := by
    unfold trace
    rw [hobstacle, hmade, plan_cons, List.append_nil]
  unfold Arrives
  dsimp only
  have hpiped : piped writeEnd [2, 1] [.exec file (file :: words)] = [] := rfl
  rw [htrace, hobstacle, piped_preparation hne, hpiped, List.append_nil, stray_preparation hne]
  exact .executed rfl hprepared hexec

end prepared

/-- Every child goes one of the four ways. -/
theorem arrives (hne : nullDescriptor ≠ writeEnd) (p : Platform) (i : Nat) (command : Command)
    (echo : Option Bytes) : Arrives p i writeEnd command echo := by
  rcases succeed_or_fail (failure p i) (setup p.deathSignals writeEnd) with
    hsetup | ⟨text, before, call, after, hsetup, hbefore, hcall⟩
  · have hprepared : ∀ c ∈ preparation p.deathSignals writeEnd echo, failure p i c = none :=
      List.forall_mem_append.2 ⟨hsetup, echoing_succeeds p i echo⟩
    cases command with
    | nil => exact arrives_wordless hne hprepared
    | cons file words =>
        cases hexec : failure p i (.exec file (file :: words)) with
        | none => exact arrives_executed hne hprepared hexec
        | some text => exact arrives_refused hne hprepared hexec
  · exact arrives_unprepared hsetup hbefore hcall

/-! ### The protocol -/

/-- What the parent, and the job, may rely on when a child has made its calls. -/
structure Abides (p : Platform) (i writeEnd : Nat) (command : Command) (echo : Option Bytes)
    (calls : List Call) (piped stray : Bytes) (status : Option WaitStatus) : Prop where
  /-- The calls of the plan are made in order, up to the end or to the first that fails; and nothing
  is made behind them except by a child that has ended. -/
  cut : ∃ made left behind, plan p.deathSignals writeEnd command echo = made ++ left ∧
    calls = made ++ behind ∧ (∀ c ∈ made.dropLast, failure p i c = none) ∧
    (left ≠ [] → ∃ c, made.getLast? = some c ∧ failure p i c ≠ none) ∧
    (status = none → behind = []) ∧ (status ≠ none → ∃ data, behind = [.write 2 data, .exit 1])
  /-- One call ends the child's own code, and it is the last. -/
  ending : ∃ last, calls.getLast? = some last ∧ calls.filter (final (failure p i)) = [last] ∧
    (last = .exit 1 ∧ status = some 256 ∨
      ∃ file words, command = file :: words ∧ last = .exec file command ∧ status = none)
  /-- A command is executed only when everything has been prepared, and behind its whole echo. -/
  execution : ∀ file words, .exec file words ∈ calls → command.head? = some file ∧
    words = command ∧ (∀ c ∈ preparation p.deathSignals writeEnd echo, failure p i c = none) ∧
    preparation p.deathSignals writeEnd echo ++ [.exec file words] <+: calls ∧
    echo.getD [] <+: piped
  silence : status = none → calls.filter complains = [] ∧ piped = echo.getD [] ∧ stray = []
  /-- A child that has ended has said why, once: on the inherited error output if its setup failed,
  and otherwise in the pipe behind the echo. -/
  complaint : status ≠ none → ∃ text,
    calls.filter complains = [.write 2 (Bytes.ofString ("execvp failed: " ++ text ++ "\n"))] ∧
    (FailsFirst (failure p i) (setup p.deathSignals writeEnd) text ∧ piped = [] ∧
        stray = Bytes.ofString ("execvp failed: " ++ text ++ "\n") ∨
      (command = [] ∧ text = "list index out of range" ∨
          ∃ file words, command = file :: words ∧ failure p i (.exec file command) = some text) ∧
        (∀ c ∈ preparation p.deathSignals writeEnd echo, failure p i c = none) ∧
        piped = echo.getD [] ++ Bytes.ofString ("execvp failed: " ++ text ++ "\n") ∧ stray = [])

variable {calls : List Call} {bytes strayed : Bytes} {status : Option WaitStatus}

/-- Calls of the preparation are no others. -/
theorem filter_prepared {deathSignals : Bool}
    (hl : l ⊆ preparation deathSignals writeEnd echo) (fails : Call → Option String) :
    l.filter (final fails) = [] ∧ l.filter complains = [] ∧
      ∀ file words, .exec file words ∉ l := by
  have hplain := preparation_plain fails deathSignals writeEnd echo
  rw [List.filter_eq_nil_iff, List.filter_eq_nil_iff]
  refine ⟨fun c hc => ?_, fun c hc => ?_, fun file words hmem => ?_⟩
  · rw [(hplain c (hl hc)).1]
    exact Bool.false_ne_true
  · rw [(hplain c (hl hc)).2.1]
    exact Bool.false_ne_true
  · exact (hplain _ (hl hmem)).2.2 file words rfl

section abides

variable (hprepared : ∀ c ∈ preparation p.deathSignals writeEnd echo, failure p i c = none)
  {file : Bytes} {words : Command}
include hprepared

theorem abides_executed (hexec : failure p i (.exec file (file :: words)) = none) :
    Abides p i writeEnd (file :: words) echo
      (preparation p.deathSignals writeEnd echo ++ [.exec file (file :: words)]) (echo.getD []) []
      none := by
  obtain ⟨hfinal, hcomplains, hnone⟩ := filter_prepared
    (List.Subset.refl (preparation p.deathSignals writeEnd echo)) (failure p i)
  constructor
  case cut =>
    rw [plan_cons]
    refine ⟨_, [], [], (List.append_nil _).symm, (List.append_nil _).symm, ?_,
      fun hne => absurd rfl hne, fun _ => rfl, fun hne => absurd rfl hne⟩
    show ∀ c ∈ (_ ++ [_]).dropLast, _
    rw [List.dropLast_concat]
    exact hprepared
  case ending =>
    refine ⟨_, List.getLast?_concat, ?_, .inr ⟨file, words, rfl, rfl, rfl⟩⟩
    rw [List.filter_append, hfinal]
    simp [final, hexec]
  case execution =>
    intro file' words' hmem
    rcases List.mem_append.1 hmem with hmem | hmem
    · exact absurd hmem (hnone file' words')
    · cases List.mem_singleton.1 hmem
      exact ⟨rfl, rfl, hprepared, List.prefix_refl _, List.prefix_refl _⟩
  case silence =>
    intro _
    rw [List.filter_append, hcomplains]
    exact ⟨rfl, rfl, rfl⟩
  case complaint => exact fun hne => absurd rfl hne

theorem abides_refused (hexec : failure p i (.exec file (file :: words)) = some text) :
    Abides p i writeEnd (file :: words) echo
      (preparation p.deathSignals writeEnd echo ++ [.exec file (file :: words)] ++
        [.write 2 (diagnostic text), .exit 1])
      (echo.getD [] ++ diagnostic text) [] (some (.ofExit 1)) := by
  obtain ⟨hfinal, hcomplains, hnone⟩ := filter_prepared
    (List.Subset.refl (preparation p.deathSignals writeEnd echo)) (failure p i)
  constructor
  case cut =>
    rw [plan_cons]
    refine ⟨_, [], _, (List.append_nil _).symm, rfl, ?_, fun hne => absurd rfl hne,
      (nomatch ·), fun _ => ⟨_, rfl⟩⟩
    show ∀ c ∈ (_ ++ [_]).dropLast, _
    rw [List.dropLast_concat]
    exact hprepared
  case ending =>
    refine ⟨.exit 1, by simp, ?_, .inl ⟨rfl, rfl⟩⟩
    rw [List.filter_append, List.filter_append, hfinal]
    simp [final, hexec]
  case execution =>
    intro file' words' hmem
    simp only [List.mem_append, hnone, List.mem_cons, exec.injEq, reduceCtorEq,
      List.not_mem_nil, false_or, or_false] at hmem
    obtain ⟨rfl, rfl⟩ := hmem
    exact ⟨rfl, rfl, hprepared, List.prefix_append _ _, List.prefix_append _ _⟩
  case silence => exact (nomatch ·)
  case complaint =>
    intro _
    refine ⟨text, ?_, .inr ⟨.inr ⟨file, words, rfl, hexec⟩, hprepared, rfl, rfl⟩⟩
    rw [List.filter_append, List.filter_append, hcomplains]
    rfl

theorem abides_wordless : Abides p i writeEnd [] echo
    (preparation p.deathSignals writeEnd echo ++
      [.write 2 (diagnostic "list index out of range"), .exit 1])
    (echo.getD [] ++ diagnostic "list index out of range") [] (some (.ofExit 1)) := by
  obtain ⟨hfinal, hcomplains, hnone⟩ := filter_prepared
    (List.Subset.refl (preparation p.deathSignals writeEnd echo)) (failure p i)
  constructor
  case cut =>
    rw [plan_nil]
    refine ⟨_, [], _, (List.append_nil _).symm, rfl,
      fun c hc => hprepared c (List.dropLast_subset _ hc),
      fun hne => absurd rfl hne, (nomatch ·), fun _ => ⟨_, rfl⟩⟩
  case ending =>
    refine ⟨.exit 1, by simp, ?_, .inl ⟨rfl, rfl⟩⟩
    rw [List.filter_append, hfinal]
    rfl
  case execution =>
    intro file' words' hmem
    simp [hnone] at hmem
  case silence => exact (nomatch ·)
  case complaint =>
    intro _
    refine ⟨_, ?_, .inr ⟨.inl ⟨rfl, rfl⟩, hprepared, rfl, rfl⟩⟩
    rw [List.filter_append, hcomplains]
    rfl

end abides

theorem abides_unprepared (hsetup : setup p.deathSignals writeEnd = before ++ call :: after)
    (hbefore : ∀ c ∈ before, failure p i c = none) (hcall : failure p i call = some text) :
    Abides p i writeEnd command echo (before ++ [call] ++ [.write 2 (diagnostic text), .exit 1]) []
      (diagnostic text) (some (.ofExit 1)) := by
  have hmade : before ++ [call] ⊆ preparation p.deathSignals writeEnd echo := by
    intro c hc
    rw [preparation, hsetup, List.append_cons]
    exact List.mem_append_left _ (List.mem_append_left _ hc)
  obtain ⟨hfinal, hcomplains, hnone⟩ := filter_prepared hmade (failure p i)
  constructor
  case cut =>
    refine ⟨before ++ [call], after ++ perform command echo, _, ?_, rfl, ?_,
      fun _ => ⟨call, List.getLast?_concat, ?_⟩,
      (nomatch ·), fun _ => ⟨_, rfl⟩⟩
    · rw [plan_eq, hsetup, List.append_cons, List.append_assoc]
    · rw [List.dropLast_concat]
      exact hbefore
    · rw [hcall]
      exact Option.some_ne_none text
  case ending =>
    refine ⟨.exit 1, by simp, ?_, .inl ⟨rfl, rfl⟩⟩
    rw [List.filter_append, hfinal]
    rfl
  case execution =>
    intro file' words' hmem
    rcases List.mem_append.1 hmem with hmem | hmem
    · exact absurd hmem (hnone file' words')
    · simp at hmem
  case silence => exact (nomatch ·)
  case complaint =>
    intro _
    refine ⟨text, ?_, .inl ⟨⟨before, call, after, hsetup, hbefore, hcall⟩, rfl, rfl⟩⟩
    rw [List.filter_append, hcomplains]
    rfl

/-- Whichever way a child goes, it abides by the protocol. -/
theorem Arrival.abides (h : Arrival p i writeEnd command echo calls bytes strayed status) :
    Abides p i writeEnd command echo calls bytes strayed status := by
  cases h with
  | executed hcommand hprepared hexec =>
      subst hcommand
      exact abides_executed hprepared hexec
  | unprepared hsetup hbefore hcall => exact abides_unprepared hsetup hbefore hcall
  | refused hcommand hprepared hexec =>
      subst hcommand
      exact abides_refused hprepared hexec
  | wordless hcommand hprepared =>
      subst hcommand
      exact abides_wordless hprepared

end Call

/-- Every child that is created abides by the protocol, and holds its pipe as long as it runs. -/
theorem Host.child_protocol (h : Host) (pipe : Nat) (command : Command) (echo : Option Bytes) :
    let c := h.newChild pipe command echo
    Call.Abides h.platform h.children.length (Descriptor.writeEnd pipe).number command echo
      c.calls c.waiting c.stray c.status ∧ c.held = c.status.isNone := by
  have hne : Call.nullDescriptor ≠ (Descriptor.writeEnd pipe).number := by
    show 3 ≠ 101 + 2 * pipe
    omega
  refine ⟨(Call.arrives hne h.platform h.children.length command echo).abides, ?_⟩
  unfold newChild
  dsimp only
  split <;> simp_all

end OrderedJobs
