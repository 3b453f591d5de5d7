import TapeLang.Proofs.Toolchain.Faults

/-!
# Delimiters inside a tree

A loop delimiter has a meaning in a sequence of instructions, but none inside a tree. A tree that is
put together by hand can hold one all the same, and the two back ends find out in different ways.
The generator walks through the whole tree and gives up at a delimiter wherever it stands, also
where no run ever comes (`Generator.exists_error_iff`). A run gives up only when a delimiter is the
next node to execute, and leaves everything as it was after the last executed instruction
(`Machine.stoppedAt_of_run`).

So a run of a program that has a listing never meets a delimiter, on whatever machine. No tree that
was nested from a sequence holds one, and for a text nothing else can go wrong either: its listing
is generated, and its run finishes, meets a fault of the tape or goes on forever
(`only_delimiters_stand_in_the_way`).
-/

set_option autoImplicit false

namespace TapeLang

open Assembly

/-! ## Instructions of a tree -/

namespace Body

/-- An instruction occurs in a body, at any depth. -/
inductive HasInstr (i : Instruction) : Body → Prop where
  | here (rest : Body) : HasInstr i (instr i rest)
  | inside {inner : Body} (openIndex closeIndex : Int) (rest : Body) :
      HasInstr i inner → HasInstr i (loop inner openIndex closeIndex rest)
  | afterInstr (j : Instruction) {rest : Body} : HasInstr i rest → HasInstr i (instr j rest)
  | afterLoop (inner : Body) (openIndex closeIndex : Int) {rest : Body} :
      HasInstr i rest → HasInstr i (loop inner openIndex closeIndex rest)

/-- What holds of every instruction of a body holds of each that occurs in it. -/
theorem all_iff_forall_hasInstr {P : Instruction → Prop} {b : Body} :
    b.All P ↔ ∀ i, b.HasInstr i → P i := by
  constructor
  · intro hall i hi
    induction hi with
    | here rest => exact hall.1
    | inside openIndex closeIndex rest _ ih => exact ih hall.1
    | afterInstr j _ ih => exact ih hall.2
    | afterLoop inner openIndex closeIndex _ ih => exact ih hall.2
  · intro h
    induction b with
    | nil => trivial
    | instr i rest ih =>
        refine ⟨h i (.here rest), ih ?_⟩
        intro j hj
        exact h j (.afterInstr i hj)
    | loop inner openIndex closeIndex rest ihInner ihRest =>
        refine ⟨ihInner ?_, ihRest ?_⟩
        · intro j hj
          exact h j (.inside openIndex closeIndex rest hj)
        · intro j hj
          exact h j (.afterLoop inner openIndex closeIndex hj)

/-- A tree is free of delimiters if none occurs in it. -/
theorem delimiterFree_iff {b : Body} :
    b.DelimiterFree ↔ ∀ i, b.HasInstr i → i.command.isDelimiter = false :=
  all_iff_forall_hasInstr

theorem not_delimiterFree_iff {b : Body} :
    ¬ b.DelimiterFree ↔ ∃ i, b.HasInstr i ∧ i.command.isDelimiter = true := by
  rw [delimiterFree_iff]
  simp only [not_forall, Bool.not_eq_false, exists_prop]

end Body

/-! ## Generating -/

namespace Generator

variable {g : Generator} {p : Program}

/-- A program has a listing exactly if no delimiter occurs in its tree. -/
theorem exists_ok_iff :
    (∃ listing, (g.generate p).2 = .ok listing) ↔
      ∀ i, p.body.HasInstr i → i.command.isDelimiter = false := by
  rw [← Body.delimiterFree_iff]
  constructor
  · rintro ⟨listing, h⟩
    exact delimiterFree_of_generate h
  · intro hfree
    exact ⟨_, g.generate_eq hfree⟩

/-- **The generator gives up exactly if a delimiter occurs in the tree**, wherever it stands. -/
theorem exists_error_iff :
    (∃ i, (g.generate p).2 = .error i) ↔
      ∃ i, p.body.HasInstr i ∧ i.command.isDelimiter = true := by
  rw [← Body.not_delimiterFree_iff, Body.delimiterFree_iff, ← exists_ok_iff (g := g)]
  cases (g.generate p).2 <;> simp

end Generator

/-! ## Running -/

section Watched

variable {σ : Type} {watcher : Watcher σ} {s s' : σ} {p : Program} {m m' : Machine} {fuel : Nat}

/-- The last move of a run that is refused an instruction is made in front of that instruction. -/
theorem Execution.blocked_cases {e : Execution σ} {o : Obstacle}
    (h : e.step watcher = .ended ⟨.blocked o, m', s'⟩) :
    ∃ i rest again outer,
      e = ⟨⟨.instr i rest, again⟩ :: outer, m', s'⟩ ∧ m'.obstacle? i = some o := by
  revert h
  fun_cases step watcher e with
  | case1 | case2 | case3 | case4 | case5 | case6 | case8 | case9 => rintro ⟨⟩
  | case7 i rest again outer m s o' ho =>
      rintro ⟨⟩
      exact ⟨i, rest, again, outer, rfl, ho⟩

/-- A run comes to an instruction: it is the next node to execute, with this machine. -/
def Machine.ComesTo (watcher : Watcher σ) (s : σ) (m : Machine) (p : Program) (i : Instruction)
    (m' : Machine) (s' : σ) : Prop :=
  ∃ rest again outer, Relation.ReflTransGen (Execution.Moves watcher)
    ⟨[{ rest := p.body }], m, s⟩ ⟨⟨.instr i rest, again⟩ :: outer, m', s'⟩

/-- A run that comes to a delimiter ends there. -/
theorem Machine.exists_run_of_comesTo {i : Instruction} (hi : i.command.isDelimiter = true)
    (h : m.ComesTo watcher s p i m' s') :
    ∃ fuel, m.run watcher s fuel p = ⟨.blocked (.delimiter i), m', s'⟩ := by
  obtain ⟨rest, again, outer, hmoves⟩ := h
  have hstep : Execution.step watcher ⟨⟨.instr i rest, again⟩ :: outer, m', s'⟩ =
      .ended ⟨.blocked (.delimiter i), m', s'⟩ := by
    simp only [Execution.step, m'.obstacle?_of_isDelimiter hi]
  obtain ⟨fuel, hrun, -⟩ := Execution.ends_iff_moves.2 ⟨_, hmoves, hstep⟩
  exact ⟨fuel, hrun⟩

/-- A run that its watcher did not halt can as well be recorded. -/
theorem Course.recorded {frames : List Frame} {r : Run σ} (h : Course watcher fuel frames m s r)
    (hr : r.ending ≠ .halted) (seen : Array Sighting) :
    ∃ seen', Course (.recording none) fuel frames m seen ⟨r.ending, r.machine, seen'⟩ := by
  induction h generalizing seen with
  | out frames m s => exact ⟨seen, .out frames m seen⟩
  | finish hd => exact ⟨seen, .finish hd⟩
  | proceed hd _ ih =>
      obtain ⟨seen', hcourse⟩ := ih hr seen
      exact ⟨seen', .proceed hd hcourse⟩
  | pass hd _ ih =>
      obtain ⟨seen', hcourse⟩ := ih hr seen
      exact ⟨seen', .pass hd hcourse⟩
  | refused hd ho => exact ⟨seen, .refused hd ho⟩
  | halted => exact absurd rfl hr
  | @executed fuel frames frames' m s s' i r hd ho _ _ ih =>
      obtain ⟨seen', hcourse⟩ := ih hr (seen.push (m.sighting i))
      exact ⟨seen', .executed hd ho (Watcher.after_recording_none ..) hcourse⟩

/-- A run was stopped by a delimiter. That is an instruction of the program and was the next node to
execute. What is left behind is the machine right after the last executed instruction, but for the
passes through loops that were counted on the way. -/
structure Machine.StoppedAt (watcher : Watcher σ) (s : σ) (m : Machine) (p : Program) (fuel : Nat)
    (i : Instruction) (m' : Machine) (s' : σ) : Prop where
  isDelimiter : i.command.isDelimiter = true
  occurs : p.body.HasInstr i
  isNext : m.ComesTo watcher s p i m' s'
  unchanged : ∃ (seen : List Sighting) (n : Nat) (m₁ : Machine),
    m.run (.recording none) #[] fuel p = ⟨.blocked (.delimiter i), m', seen.toArray⟩ ∧
      m.stats.steps + seen.length = m'.stats.steps ∧ m.RightAfter p seen m₁ ∧ m' = m₁.passed n

/-- **A run meets a delimiter only as the next node to execute**, and changes nothing there. -/
theorem Machine.stoppedAt_of_run {i : Instruction}
    (h : m.run watcher s fuel p = ⟨.blocked (.delimiter i), m', s'⟩) :
    m.StoppedAt watcher s p fuel i m' s' := by
  obtain ⟨e, hmoves, hstep⟩ := Execution.ends_iff_moves.1 ⟨fuel, h, by simp⟩
  obtain ⟨j, rest, again, outer, rfl, ho⟩ := Execution.blocked_cases hstep
  obtain ⟨hdelimiter, rfl⟩ := obstacle?_eq_delimiter ho
  -- the instructions of the frames are those of the program, all along the run
  have hall : p.body.All p.body.HasInstr := Body.all_iff_forall_hasInstr.2 fun _ hi => hi
  obtain ⟨k, hoccurs, hk⟩ := exists_refused hall h
  obtain ⟨-, rfl⟩ := obstacle?_eq_delimiter hk
  -- the watcher did not halt the run, so that a recorded run takes the same course
  obtain ⟨seen, hrecorded⟩ := (course_of_run h).recorded (by simp) #[]
  have hrun : m.run (.recording none) #[] fuel p =
      ⟨.blocked (.delimiter i), m', seen.toList.toArray⟩ := hrecorded.run_eq
  obtain ⟨n, m₁, hlast, hmachine⟩ := rightAfter_of_blocked hrun
  exact ⟨hdelimiter, hoccurs, ⟨rest, again, outer, hmoves⟩, seen.toList, n, m₁, hrun,
    hrecorded.steps_recorded, hlast, hmachine⟩

end Watched

/-! ## Texts -/

/-- What becomes of the run of a text: it finishes, it meets an edge of the tape, or it never
ends. -/
theorem interpret_ends {source : String} {p : Program} (hp : (parse source).value = .ok p)
    (config : TapeConfig) (input : List UInt8) (hasSink : Bool) (fuel : Nat) :
    let failure := (interpret fuel source config input hasSink).value.failure
    failure = none ∨ (∃ e index pointer, failure = some (.fault (.edge e index pointer))) ∨
      failure = some .outOfFuel := by
  intro failure
  have hvalue : failure =
      ((Machine.start config input hasSink).run .idle () fuel p).ending.failure? := by
    show (interpret fuel source config input hasSink).value.failure = _
    rw [interpret, value_interpretWatched_of_ok _ _ _ hp]
    rfl
  generalize hr : (Machine.start config input hasSink).run .idle () fuel p = r at hvalue
  obtain ⟨ending, m, _⟩ := r
  rw [hvalue]
  rcases ending with _ | ⟨f | i⟩ | _ | _
  · exact .inl rfl
  · obtain ⟨-, e, k, -, -, rfl, -⟩ := namesCause_of_run hp hr
    exact .inr (.inl ⟨e, k, m.tape.pointer, rfl⟩)
  · have hfree := (flatten_of_nestLogged (parse_value source ▸ hp)).2.2
    exact absurd (congrArg Run.ending hr) (Machine.ending_ne_delimiter hfree i)
  · have hne := (course_of_run hr).ne_halted fun _ _ _ => rfl
    exact absurd rfl hne
  · exact .inr (.inr rfl)

/-- **Only delimiters stand in the way of a program, and no text has one there.** The generator
gives up exactly if a delimiter occurs in the tree of a program, and otherwise gives a listing. A
run gives up at a delimiter exactly if it comes to one, and leaves what `Machine.StoppedAt` says. A
program with a listing therefore never meets one, whatever the machine and the watcher. No nested
tree holds a delimiter: every text that is a program has its listing, and its run finishes, meets an
edge of the tape, or goes on forever. -/
theorem only_delimiters_stand_in_the_way :
    (∀ (g : Generator) (p : Program),
      ((∃ i, (g.generate p).2 = .error i) ↔
        ∃ i, p.body.HasInstr i ∧ i.command.isDelimiter = true) ∧
      ((∃ listing, (g.generate p).2 = .ok listing) ↔
        ¬ ∃ i, p.body.HasInstr i ∧ i.command.isDelimiter = true)) ∧
    (∀ (σ : Type) (watcher : Watcher σ) (s s' : σ) (p : Program) (m m' : Machine) (i : Instruction),
      (∀ fuel, m.run watcher s fuel p = ⟨.blocked (.delimiter i), m', s'⟩ →
        m.StoppedAt watcher s p fuel i m' s') ∧
      (i.command.isDelimiter = true → m.ComesTo watcher s p i m' s' →
        ∃ fuel, m.run watcher s fuel p = ⟨.blocked (.delimiter i), m', s'⟩)) ∧
    (∀ (g : Generator) (p : Program) (listing : Listing), (g.generate p).2 = .ok listing →
      ∀ (σ : Type) (watcher : Watcher σ) (s : σ) (m : Machine) (fuel : Nat) (i : Instruction),
        (m.run watcher s fuel p).ending ≠ .blocked (.delimiter i)) ∧
    (∀ (xs : List Instruction) (p : Program), (nestLogged xs).value = .ok p →
      ¬ ∃ i, p.body.HasInstr i ∧ i.command.isDelimiter = true) ∧
    (∀ (source : String) (p : Program), (parse source).value = .ok p → ∀ config : TapeConfig,
      (∀ annotate, ∃ listing, (compile source config annotate).value = .ok listing) ∧
      ∀ (input : List UInt8) (hasSink : Bool),
        let failure := fun fuel => (interpret fuel source config input hasSink).value.failure
        (∀ fuel i, failure fuel ≠ some (.delimiter i)) ∧
        ((∃ fuel, failure fuel = none) ∨
          (∃ fuel e index pointer, failure fuel = some (.fault (.edge e index pointer))) ∨
          ∀ fuel, failure fuel = some .outOfFuel)) := by
  refine ⟨?_, ?_, ?_, ?_, ?_⟩
  · intro g p
    rw [Generator.exists_ok_iff, ← Body.delimiterFree_iff, ← Body.not_delimiterFree_iff, not_not]
    exact ⟨Generator.exists_error_iff.trans Body.not_delimiterFree_iff.symm, Iff.rfl⟩
  · intro σ watcher s s' p m m' i
    refine ⟨?_, Machine.exists_run_of_comesTo⟩
    intro fuel h
    exact Machine.stoppedAt_of_run h
  · intro g p listing hlisting σ watcher s m fuel i hending
    exact Machine.ending_ne_delimiter (Generator.delimiterFree_of_generate hlisting) i hending
  · intro xs p hp
    rw [← Body.not_delimiterFree_iff, not_not]
    exact (flatten_of_nestLogged hp).2.2
  · intro source p hp config
    refine ⟨fun annotate => ⟨_, value_compile_of_ok hp config annotate⟩, ?_⟩
    intro input hasSink failure
    have hends := interpret_ends hp config input hasSink
    refine ⟨?_, ?_⟩
    · intro fuel i hfailure
      rcases hends fuel with h | ⟨e, index, pointer, h⟩ | h <;> cases hfailure.symm.trans h
    · by_cases hforever : ∀ fuel, failure fuel = some .outOfFuel
      · exact .inr (.inr hforever)
      · obtain ⟨fuel, hfuel⟩ := not_forall.1 hforever
        rcases hends fuel with h | ⟨e, index, pointer, h⟩ | h
        · exact .inl ⟨fuel, h⟩
        · exact .inr (.inl ⟨fuel, e, index, pointer, h⟩)
        · exact absurd h hfuel

/-- A delimiter inside a loop is in the way of the generator. It is in the way of a run only if the
run enters the loop, and then the pass is all that was counted. -/
theorem delimiter_in_loop_stands_in_the_way :
    let stray : Program := { body := .loop (.instr ⟨.loopClose, 1, 1⟩ .nil) 0 2 .nil }
    let blank := Machine.start {} [] false
    let marked := blank.perform ⟨.increment, 0, 0⟩
    (∃ i, (Generator.generate {} stray).2 = .error i) ∧
      (blank.run .idle () 3 stray).ending = .finished ∧
      marked.StoppedAt .idle () stray 2 ⟨.loopClose, 1, 1⟩ (marked.passed 1) () := by
  intro stray blank marked
  obtain ⟨hgenerate, hrun, -⟩ := only_delimiters_stand_in_the_way
  refine ⟨(hgenerate {} stray).1.2 ?_, rfl, ?_⟩
  · exact ⟨⟨.loopClose, 1, 1⟩, .inside 0 2 .nil (.here .nil), rfl⟩
  · exact (hrun Unit .idle () () stray marked _ _).1 2 rfl

end TapeLang
