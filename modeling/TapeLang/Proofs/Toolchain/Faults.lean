import TapeLang.Proofs.Machine.Origin
import TapeLang.Proofs.Machine.Refusal
import TapeLang.Proofs.Toolchain.Stages

/-!
# Faults of a running text

When the run of a text ends in a fault, the fault leads back to the text: it names an instruction by
its index, the text has the command of the edge at the offset of that instruction, and the tape
stands at that edge (`Fault.NamesCause`). Nothing is lost and nothing is changed by the refused
instruction. And these are all the faults there are: a bounded tape refuses its edges without
exception, and a tape that wraps around refuses nothing (`fault_names_its_cause`).
-/

set_option autoImplicit false

namespace TapeLang

/-- A fault names its cause in a text: it carries the index of an instruction of the text and the
pointer of the tape, and it is the fault of that edge whose command stands at the place of the
instruction. The tape is at this edge. -/
def Fault.NamesCause (f : Fault) (source : String) (c : TapeConfig) (t : Tape) : Prop :=
  ∃ (edge : Edge) (k offset : Nat) (i : Instruction),
    f = .edge edge k t.pointer ∧ edge.Reached c t ∧
      (lex source)[k]? = some i ∧ i.offset = offset ∧
        ∀ edge' : Edge, f.kind = .edge edge' ↔
          source.toList[offset]? = some edge'.command.symbol

variable {source : String} {p : Program} {config : TapeConfig} {input : List UInt8}
  {hasSink : Bool} {fuel : Nat} {m : Machine}

/-- What a run of a text is refused is an instruction of the text. -/
theorem exists_refused_of_parse (hp : (parse source).value = .ok p) {o : Obstacle}
    (h : (Machine.start config input hasSink).run .idle () fuel p = ⟨.blocked o, m, ()⟩) :
    m.tape.Fits config ∧ ∃ i ∈ lex source, i.command.isDelimiter = false ∧
      m.obstacle? i = some o := by
  have hkept := (course_of_run h).invariant_of_all (I := fun m _ => m.tape.Fits config)
    (fun hI => hI) ?_ (Program.all_frames (all_lexed_of_parse hp)) (.blank config)
  · obtain ⟨m', hfits, hmachine, hrefused⟩ := hkept
    obtain rfl : m = m' := hmachine
    obtain ⟨i, ⟨hmem, hi⟩, ho⟩ := hrefused o rfl
    exact ⟨hfits, i, hmem, hi, ho⟩
  · intro m' _ i _ hfits ho
    exact Machine.fits_perform hfits ho

/-- **The fault of a run comes from a bounded tape and names its cause.** -/
theorem namesCause_of_run (hp : (parse source).value = .ok p) {f : Fault}
    (h : (Machine.start config input hasSink).run .idle () fuel p = ⟨.blocked (.fault f), m, ()⟩) :
    config.wraps = false ∧ f.NamesCause source config m.tape := by
  obtain ⟨hfits, i, hmem, -, ho⟩ := exists_refused_of_parse hp h
  obtain ⟨-, hwraps, edge, hedge, rfl⟩ :=
    Machine.edge?_eq_some_of_obstacle? hfits.pointer_lt_size ho
  obtain ⟨hcommand, hreached⟩ := (Machine.edge?_eq_some_iff hfits).1 hedge
  obtain ⟨k, hk⟩ := List.mem_iff_getElem?.1 hmem
  obtain ⟨hindex, offset, hoffset, hsymbol⟩ := getElem?_lex hk
  refine ⟨hfits.config_eq ▸ hwraps, edge, k, offset, i, ?_, hreached, hk, hoffset, ?_⟩
  · rw [hindex]
  · intro edge'
    rw [hsymbol, hcommand, Option.some_inj, Edge.symbol_command_inj]
    simp [Fault.kind]

theorem TapeConfig.wraps_eq_false_iff {c : TapeConfig} : c.wraps = false ↔ c.policy = .bounded := by
  unfold wraps
  cases c.policy <;> decide

/-- **Every fault of a running text names its cause, and changes nothing.** Let the run of a text
end in a fault. Then the tape is bounded, and the fault names its cause: the index is that of an
instruction of the text; the symbol at the offset of that instruction says which of the four faults
it is; and the tape is at this edge, under the pointer that the fault names. The machine is the one
right after the last executed instruction, except that passes through loops were counted on the way
to the refused one; and all that is ever counted as a pass is a move into the body of a loop.

Conversely, no run on a bounded tape executes the command of an edge at that edge, and no run on a
tape that wraps around ends in a fault. -/
theorem fault_names_its_cause (source : String) (p : Program) (hp : (parse source).value = .ok p)
    (config : TapeConfig) (input : List UInt8) (hasSink : Bool) :
    let fresh := Machine.start config input hasSink
    let first : Execution Unit := ⟨[{ rest := p.body }], fresh, ()⟩
    (∀ fuel f m, (interpret fuel source config input hasSink).value = ⟨some (.fault f), m, ()⟩ →
      config.policy = .bounded ∧ f.NamesCause source config m.tape ∧
        m.stats.loopIterations = first.loopEntries .idle fuel ∧
        ∃ (seen : List Sighting) (n : Nat) (m₁ : Machine), seen.length = m.stats.steps ∧
          fresh.run (.recording none) #[] fuel p = ⟨.blocked (.fault f), m, seen.toArray⟩ ∧
          fresh.RightAfter p seen m₁ ∧ m = m₁.passed n) ∧
    (config.policy = .bounded → ∀ e e' i rest again outer,
      Relation.ReflTransGen (Execution.Moves .idle) first e → Execution.Moves .idle e e' →
        e.frames = ⟨.instr i rest, again⟩ :: outer →
          ∀ edge : Edge, i.command = edge.command → ¬ edge.Reached config e.machine.tape) ∧
    (config.policy = .wrapping → ∀ fuel f m,
      (interpret fuel source config input hasSink).value ≠ ⟨some (.fault f), m, ()⟩) := by
  intro fresh first
  -- a reported fault is one of the run on the fresh machine
  have hrun : ∀ {fuel f m},
      (interpret fuel source config input hasSink).value = ⟨some (.fault f), m, ()⟩ →
        fresh.run .idle () fuel p = ⟨.blocked (.fault f), m, ()⟩ := by
    intro fuel f m h
    rw [interpret, value_interpretWatched_of_ok _ _ _ hp] at h
    exact Run.interpretation_eq_fault_iff.1 h
  refine ⟨?_, ?_, ?_⟩
  · intro fuel f m h
    have hblocked := hrun h
    obtain ⟨hwraps, hcause⟩ := namesCause_of_run hp hblocked
    obtain ⟨seen, hrecorded, hsteps⟩ := Machine.run_recording hblocked
    obtain ⟨n, m₁, hlast, hmachine⟩ := Machine.rightAfter_of_blocked hrecorded
    refine ⟨TapeConfig.wraps_eq_false_iff.1 hwraps, hcause, ?_, seen, n, m₁, ?_, hrecorded, hlast,
      hmachine⟩
    · have hcount := Execution.loopIterations_run .idle fuel first
      have hmachine : (first.run .idle fuel).machine = m := congrArg Run.machine hblocked
      rw [hmachine] at hcount
      exact hcount.trans (Nat.zero_add _)
    · exact (Nat.zero_add _).symm.trans hsteps
  · intro hpolicy e e' i rest again outer hreach hmove hframes edge hcommand
    have hfits : e.machine.tape.Fits config :=
      Execution.fits_of_reaches (e := first) (.blank config) hreach
    exact Execution.not_reached_of_moves (TapeConfig.wraps_eq_false_iff.2 hpolicy) hfits hmove
      hframes hcommand
  · intro hpolicy fuel f m h
    obtain ⟨hwraps, -⟩ := namesCause_of_run hp (hrun h)
    rw [TapeConfig.wraps_eq_false_iff, hpolicy] at hwraps
    cases hwraps

/-- A text that moves below zero inside a loop, after another loop was skipped: the fault names
instruction 8, which is the last `<` of the text. -/
theorem move_below_zero_names_its_cause :
    ∃ p m, (parse "go +[>[-]<-<]").value = .ok p ∧
      (interpret 20 "go +[>[-]<-<]" {} [] false).value =
        ⟨some (.fault (.edge .pointerUnderflow 8 0)), m, ()⟩ ∧
      (Fault.edge .pointerUnderflow 8 0).NamesCause "go +[>[-]<-<]" {} m.tape ∧
      m.stats.loopIterations = 1 ∧ m.stats.steps = 4 := by
  have hp : (parse "go +[>[-]<-<]").value = .ok _ := rfl
  obtain ⟨hfault, -, -⟩ := fault_names_its_cause "go +[>[-]<-<]" _ hp {} [] false
  obtain ⟨-, hcause, -, -⟩ := hfault 20 (.edge .pointerUnderflow 8 0) _ rfl
  exact ⟨_, _, hp, rfl, hcause, rfl, rfl⟩

end TapeLang
