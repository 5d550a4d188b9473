import OrderedJobs.Proofs.Contribution
import OrderedJobs.Proofs.OutputPrefix
import OrderedJobs.Proofs.ValidLines

/-! # The order of the output

If the lines of the stream are all commands, no progress is shown and no call of the parent fails,
then a run succeeds, and its output is made of the contributions of its jobs, in the order of their
lines (`Config.run_in_order`).  So the output depends neither on the limits nor on how the events of
different children interleave.

Two invariants come together here: what each child has written or will write is its contribution
(`Run.Foreseen`), and the output is what was taken from the pipes (`Session.Copied`). -/

namespace OrderedJobs

namespace Run

variable {r r₀ : Run} {texts : List Bytes}

/-- The contribution of a job, for all that happens in a run that begins with `r₀`. -/
def contributed (r₀ : Run) : Nat → Command → Bytes :=
  contribution r₀.session.host.platform r₀.quiet r₀.session.host.rounds.flatten

theorem newborns_contributed (hprogress : r₀.session.display.progress = false) :
    Newborns Child.written r₀.contributed r₀ := by
  intro h pipe command hplatform
  have hecho : r₀.echo command = if r₀.quiet then none else some (command.echo false) := by
    unfold Run.echo
    rw [hprogress]
  rw [Child.written_foldl_undergo, hecho, h.fate_newChild]
  unfold contributed
  rw [hplatform]

theorem Foreseen.output_eq (h : Foreseen Child.written r₀.contributed r₀ texts r)
    (hc : r.session.Copied) (hs : r.Steady) (hdone : r.step = none) :
    r.session.host.output = (texts.mapIdx fun i text =>
      r₀.contributed i (r₀.leading ++ Line.words text)).flatten := by
  obtain ⟨-, -, hcurrent⟩ := done_of_step_none hdone
  have hnext := hs.sound.length_eq
  rw [hc, List.flatMap_def, h.map_eq hdone fun i c hchild => ?_]
  -- An empty and closed pipe has been passed on as a whole.
  have hlt := (List.getElem?_eq_some_iff.1 hchild).1
  obtain ⟨hwaiting, hheld⟩ := (hs.sound.fits i c hchild).drained (by omega)
  have hwriting := Child.writing_of_not_held hheld
  rw [Child.written_foldl_undergo, Child.fate_of_not_writing hwriting, Child.written, hwaiting,
    List.append_nil]

end Run

/-! ### Whole runs -/

theorem Config.run_eq_contributions {c : Config} {limits : Limits} (hlimits : c.limits = .ok limits)
    {p : Platform} (hprogress : c.showsProgress p.terminal = false) (hspare : p.faults.SpareParent)
    (rounds : List (List Event)) (handler : Handler) {texts : List Bytes}
    (hvalid : ∀ text ∈ texts, Line.Valid c.leading text) :
    ∃ result code, c.run (Host.fresh p rounds handler) (Source.ofLines texts) = .ok result ∧
      result.outcome = .ok code ∧
      result.final.session.host.output = (texts.mapIdx fun i text =>
        contribution p c.quiet rounds.flatten i (c.leading ++ Line.words text)).flatten := by
  let r₀ := Run.prepare c limits (Host.fresh p rounds handler) (Source.ofLines texts)
  have hrun : c.run (Host.fresh p rounds handler) (Source.ofLines texts) = .ok r₀.execute := by
    unfold Config.run
    rw [hlimits]
  obtain ⟨code, hok⟩ : ∃ code, r₀.execute.outcome = .ok code :=
    Run.returns_of_spared hvalid hspare
  refine ⟨r₀.execute, code, hrun, hok, ?_⟩
  obtain ⟨n, done, hr, hdone, heq⟩ := Run.returned_of_execute hok
  obtain ⟨hsteady, hfixed⟩ := Run.steady_of_reached hr
  have hforeseen : Run.Foreseen Child.written r₀.contributed r₀ texts done :=
    Run.foreseen_of_reached Child.lasting_written hvalid (Run.newborns_contributed hprogress) hr
  have hquiet : (done.onHost n.remove).session.display.progress = false :=
    hfixed.progress.trans hprogress
  rw [Run.conclude_eq hquiet] at heq
  rw [← show _ = r₀.execute.final from congrArg Prod.snd heq]
  exact (Run.output_remove n _).trans
    (hforeseen.output_eq (Run.copied_of_reached hprogress hr) hsteady hdone)

theorem contribution_congr (p : Platform) (quiet : Bool) {events events' : List Event} {i : Nat}
    (h : events'.filter (·.child? == some i) = events.filter (·.child? == some i))
    (command : Command) :
    contribution p quiet events' i command = contribution p quiet events i command := by
  unfold contribution
  rw [Event.said_congr h]

/-- The output of a run is in order: it is made of what each job contributes by itself, in the order
of the lines.  So any limits, in particular those of a sequential run, and any interleaving of the
same events of each child give the same output. -/
theorem Config.run_in_order (c : Config) (limits : Limits) (hlimits : c.limits = .ok limits)
    (p : Platform) (hprogress : c.showsProgress p.terminal = false)
    (hspare : p.faults.SpareParent) (rounds : List (List Event)) (handler : Handler)
    (texts : List Bytes) (hvalid : ∀ text ∈ texts, Line.Valid c.leading text) :
    ∃ result code, c.run (Host.fresh p rounds handler) (Source.ofLines texts) = .ok result ∧
      result.outcome = .ok code ∧
      result.final.session.host.output = (texts.mapIdx fun i text =>
        contribution p c.quiet rounds.flatten i (c.leading ++ Line.words text)).flatten ∧
      (∀ (c' : Config) (limits' : Limits) (rounds' : List (List Event)) (handler' : Handler),
        c'.limits = .ok limits' → c'.leading = c.leading → c'.quiet = c.quiet →
        c'.showsProgress p.terminal = false →
        (∀ i : Nat, rounds'.flatten.filter (·.child? == some i) =
          rounds.flatten.filter (·.child? == some i)) →
        ∃ result' code',
          c'.run (Host.fresh p rounds' handler') (Source.ofLines texts) = .ok result' ∧
          result'.outcome = .ok code' ∧
          result'.final.session.host.output = result.final.session.host.output) ∧
      ∃ sequential code', ({ c with jobs := 1, ring := some 1 } : Config).run
          (Host.fresh p rounds handler) (Source.ofLines texts) = .ok sequential ∧
        sequential.outcome = .ok code' ∧
        sequential.final.session.host.output = result.final.session.host.output := by
  obtain ⟨result, code, hrun, hok, hout⟩ :=
    run_eq_contributions hlimits hprogress hspare rounds handler hvalid
  refine ⟨result, code, hrun, hok, hout, ?_, ?_⟩
  · intro c' limits' rounds' handler' hlimits' hleading hquiet hprogress' hevents
    obtain ⟨result', code', hrun', hok', hout'⟩ := run_eq_contributions hlimits' hprogress' hspare
      rounds' handler' (hleading ▸ hvalid)
    refine ⟨result', code', hrun', hok', ?_⟩
    rw [hout', hout, hleading, hquiet]
    congr 1
    refine congrArg (fun f => texts.mapIdx f) (funext fun i => funext fun text => ?_)
    exact contribution_congr p c.quiet (hevents i) _
  · have hone : ({ c with jobs := 1, ring := some 1 } : Config).limits =
        .ok ⟨1, 1, by decide, by decide⟩ := rfl
    obtain ⟨sequential, code', hrun', hok', hout'⟩ :=
      run_eq_contributions hone hprogress hspare rounds handler hvalid
    exact ⟨sequential, code', hrun', hok', hout'.trans hout.symm⟩

/-- The second job speaks and ends first, and yet its output comes second. -/
theorem Config.run_in_order_two_lines :
    ∃ result code, (⟨2, some 3, false, none, []⟩ : Config).run
        (Host.fresh {} [[.data 1 [0x79], .finish 1 0 false], [.data 0 [0x78]]] .default)
        (Source.ofLines [[0x61], [0x62]]) = .ok result ∧
      result.outcome = .ok code ∧
      result.final.session.host.output = [0x61, 0x0a, 0x78, 0x62, 0x0a, 0x79] := by
  have hvalid : ∀ text ∈ [[0x61], [0x62]], Line.Valid [] text := by decide
  obtain ⟨result, code, hrun, hok, hout, -⟩ := Config.run_in_order ⟨2, some 3, false, none, []⟩
    ⟨2, 3, by decide, by decide⟩ rfl {} rfl ⟨rfl, rfl, rfl, rfl, rfl⟩
    [[.data 1 [0x79], .finish 1 0 false], [.data 0 [0x78]]] .default [[0x61], [0x62]] hvalid
  exact ⟨result, code, hrun, hok, hout⟩

end OrderedJobs
