import TapeLang.Proofs.Machine.Replay
import TapeLang.Proofs.Toolchain.Faults

/-!
# Programs without loops and input

What a sequence of moves, changes and outputs comes to can be counted. The pointer is displaced by
the moves to the right less those to the left. A cell holds its increments less its decrements,
where the commands of a cell are those that find the pointer there, and an output shows what its
cell holds by then. A tape that wraps around takes the displacement modulo its length and the cells
modulo 256, and a bounded tape takes both as they are (`TapeConfig.place`, `TapeConfig.value`).

That a machine stands where the counts say (`Machine.Tallies`) is kept by every instruction that it
accepts (`Machine.Tallies.perform`). Which instructions a bounded tape accepts is counted as well:
it refuses the first one with which a count leaves its range (`Machine.Tallies.exceeded_iff`). So
the whole run of such a text is known in advance (`straight_line_is_counted`).
-/

set_option autoImplicit false

namespace TapeLang

/-! ## Counts -/

/-- By how much a command changes the cell under the pointer. -/
def Command.gain : Command → Int
  | increment => 1
  | decrement => -1
  | moveLeft | moveRight | output | input | loopOpen | loopClose => 0

/-- The moves to the right less the moves to the left. -/
def displacement (commands : List Command) : Int :=
  commands.count .moveRight - commands.count .moveLeft

/-- Every command of a sequence, with the commands before it. -/
def situated (commands : List Command) : List (List Command × Command) :=
  commands.mapIdx fun k command => (commands.take k, command)

namespace TapeConfig

/-- What a cell holds after a sum of changes. -/
def value (c : TapeConfig) (sum : Int) : Int :=
  if c.wraps then sum % 256 else sum

/-- The commands that find the pointer at a cell. -/
def commandsAt (c : TapeConfig) (commands : List Command) (cell : Int) : List Command :=
  ((situated commands).filter fun s => c.place (displacement s.1) == cell).map Prod.snd

/-- The increments of a cell less its decrements. -/
def net (c : TapeConfig) (commands : List Command) (cell : Int) : Int :=
  (c.commandsAt commands cell).count .increment - (c.commandsAt commands cell).count .decrement

/-- What the outputs show: each of them the net value of its cell over the commands before it. -/
def shown (c : TapeConfig) (commands : List Command) : List Int :=
  ((situated commands).filter fun s => s.2 == .output).map fun s =>
    c.value (c.net s.1 (c.place (displacement s.1)))

end TapeConfig

theorem displacement_concat (commands : List Command) (x : Command) :
    displacement (commands ++ [x]) = displacement commands + x.delta := by
  simp only [displacement, List.count_append, List.count_singleton]
  cases x <;> simp [Command.delta] <;> omega

theorem situated_concat (commands : List Command) (x : Command) :
    situated (commands ++ [x]) = situated commands ++ [(commands, x)] := by
  rw [situated, List.mapIdx_concat, List.take_left]
  -- the commands before one of the earlier commands are the same as without the last one
  congr 1
  apply List.mapIdx_eq_mapIdx_iff.2
  intro k hk
  rw [List.take_append_of_le_length (Nat.le_of_lt hk)]

namespace TapeConfig

theorem commandsAt_concat (c : TapeConfig) (commands : List Command) (x : Command) (cell : Int) :
    c.commandsAt (commands ++ [x]) cell =
      c.commandsAt commands cell ++ if c.place (displacement commands) = cell then [x] else [] := by
  rw [commandsAt, situated_concat, List.filter_append, List.map_append, commandsAt]
  congr 1
  by_cases h : c.place (displacement commands) = cell <;> simp [h]

/-- A command changes the net value of the cell at the pointer. -/
theorem net_concat (c : TapeConfig) (commands : List Command) (x : Command) (cell : Int) :
    c.net (commands ++ [x]) cell =
      c.net commands cell + if c.place (displacement commands) = cell then x.gain else 0 := by
  rw [net, net, commandsAt_concat, List.count_append, List.count_append]
  split
  · simp only [List.count_singleton]
    cases x <;> simp [Command.gain] <;> omega
  · simp

theorem shown_concat (c : TapeConfig) (commands : List Command) (x : Command) :
    c.shown (commands ++ [x]) = c.shown commands ++
      if x = .output then [c.value (c.net commands (c.place (displacement commands)))] else [] := by
  rw [shown, situated_concat, List.filter_append, List.map_append, shown]
  congr 1
  by_cases h : x = .output <;> simp [h]

end TapeConfig

/-! ## Ranges -/

/-- The counts of some commands have gone past an edge of a tape. -/
def Edge.Exceeded (c : TapeConfig) (commands : List Command) : Edge → Prop
  | pointerUnderflow => displacement commands < 0
  | pointerOverflow => c.length.cells ≤ displacement commands
  | cellUnderflow => ∃ cell < c.length.cells, c.net commands cell < 0
  | cellOverflow => ∃ cell < c.length.cells, 255 < c.net commands cell

/-- The counts of some commands are in the ranges of a tape. -/
structure TapeConfig.Admits (c : TapeConfig) (commands : List Command) : Prop where
  pointer : 0 ≤ displacement commands ∧ displacement commands < c.length.cells
  cells : ∀ cell < c.length.cells, 0 ≤ c.net commands cell ∧ c.net commands cell ≤ 255

instance (c : TapeConfig) (commands : List Command) : Decidable (c.Admits commands) :=
  decidable_of_iff
    ((0 ≤ displacement commands ∧ displacement commands < c.length.cells) ∧
      ∀ cell < c.length.cells, 0 ≤ c.net commands cell ∧ c.net commands cell ≤ 255)
    ⟨fun h => ⟨h.1, h.2⟩, fun h => ⟨h.pointer, h.cells⟩⟩

theorem TapeConfig.admits_iff {c : TapeConfig} {commands : List Command} :
    c.Admits commands ↔ ∀ e : Edge, ¬ e.Exceeded c commands := by
  constructor
  · rintro ⟨hpointer, hcells⟩ e hexceeded
    cases e with
    | pointerUnderflow => exact absurd hpointer.1 (Int.not_le.2 hexceeded)
    | pointerOverflow => exact absurd hpointer.2 (Int.not_lt.2 hexceeded)
    | cellUnderflow =>
        obtain ⟨cell, hcell, hlow⟩ := hexceeded
        exact absurd (hcells cell hcell).1 (Int.not_le.2 hlow)
    | cellOverflow =>
        obtain ⟨cell, hcell, hhigh⟩ := hexceeded
        exact absurd (hcells cell hcell).2 (Int.not_le.2 hhigh)
  · intro h
    refine ⟨⟨?_, ?_⟩, ?_⟩
    · exact Int.not_lt.1 (h .pointerUnderflow)
    · exact Int.not_le.1 (h .pointerOverflow)
    · intro cell hcell
      constructor
      · apply Int.not_lt.1
        exact fun hlow => h .cellUnderflow ⟨cell, hcell, hlow⟩
      · apply Int.not_lt.1
        exact fun hhigh => h .cellOverflow ⟨cell, hcell, hhigh⟩

/-! ## A machine that stands where the counts say -/

/-- What a cell holds after an addition that its tape accepts. -/
theorem Tape.cell_bump_eq_value {t : Tape} {c : TapeConfig} (hc : t.config = c) {sum : Int}
    (hcell : (t.cell.toNat : Int) = c.value sum) {delta index : Int}
    (h : t.addFault? delta index = none) :
    ((t.bump delta).cell.toNat : Int) = c.value (sum + delta) := by
  unfold TapeConfig.value at hcell ⊢
  cases hw : c.wraps with
  | true =>
      rw [hw, if_pos rfl] at hcell
      rw [cast_cell_bump h, hcell, if_pos rfl, Int.emod_add_emod]
  | false =>
      rw [hw, if_neg Bool.false_ne_true] at hcell
      rw [cell_bump_of_addFault? (hc ▸ hw) h, hcell, if_neg Bool.false_ne_true]

namespace Machine

/-- A machine stands where the counts of some commands say, with a sink that has received all of
its output, or with none. -/
structure Tallies (c : TapeConfig) (hasSink : Bool) (m : Machine) (commands : List Command) :
    Prop where
  tape : m.tape.Fits c
  steps : m.stats.steps = commands.length
  pointer : (m.tape.pointer : Int) = c.place (displacement commands)
  cells : ∀ cell : Nat, ((m.tape.get cell).toNat : Int) = c.value (c.net commands cell)
  output : m.output.toList.map (fun byte => (byte.toNat : Int)) = c.shown commands
  sink : m.sink = if hasSink then some m.output else none

variable {c : TapeConfig} {hasSink : Bool} {m : Machine} {commands : List Command}

theorem tallies_start (c : TapeConfig) (input : List UInt8) (hasSink : Bool) :
    (start c input hasSink).Tallies c hasSink [] where
  tape := .blank c
  steps := rfl
  pointer := by
    unfold TapeConfig.place
    split <;> rfl
  cells := by
    intro cell
    show (((Tape.blank c).get cell).toNat : Int) = _
    rw [Tape.get_blank]
    unfold TapeConfig.value
    split <;> rfl
  output := rfl
  sink := rfl

theorem Tallies.settle (h : m.Tallies c hasSink commands) : m.settle.Tallies c hasSink commands :=
  ⟨h.tape, h.steps, h.pointer, h.cells, h.output, h.sink⟩

namespace Tallies

/-- The cell under the pointer. -/
theorem cell_eq (h : m.Tallies c hasSink commands) :
    (m.tape.cell.toNat : Int) = c.value (c.net commands m.tape.pointer) :=
  h.cells m.tape.pointer

/-- The cells after an instruction that the machine accepts. -/
theorem cells_perform (h : m.Tallies c hasSink commands) {i : Instruction}
    (ho : m.obstacle? i = none) (hi : i.command ≠ .input) (cell : Nat) :
    (((m.perform i).tape.get cell).toNat : Int) =
      c.value (c.net (commands ++ [i.command]) cell) := by
  rw [TapeConfig.net_concat, ← h.pointer]
  simp only [Int.natCast_inj]
  -- a change of the cell under the pointer, which the tape accepted
  have hbump : ∀ delta : Int, m.tape.addFault? delta i.index = none →
      (((m.tape.bump delta).get cell).toNat : Int) =
        c.value (c.net commands cell + if m.tape.pointer = cell then delta else 0) := by
    intro delta hfault
    by_cases hcell : m.tape.pointer = cell
    · subst hcell
      rw [if_pos rfl]
      exact Tape.cell_bump_eq_value h.tape.config_eq h.cell_eq hfault
    · rw [if_neg hcell, Int.add_zero, ← h.cells cell, Tape.bump_eq_put, Tape.get_put, if_neg hcell]
  have hstays : ((m.tape.get cell).toNat : Int) =
      c.value (c.net commands cell + if m.tape.pointer = cell then 0 else 0) := by
    rw [ite_self, Int.add_zero]
    exact h.cells cell
  obtain ⟨tape, input, output, sink, stats⟩ := m
  obtain ⟨command, index, offset⟩ := i
  cases command with
  | increment => exact hbump 1 (Option.map_eq_none_iff.1 ho)
  | decrement => exact hbump (-1) (Option.map_eq_none_iff.1 ho)
  | moveLeft | moveRight | output | loopOpen | loopClose => exact hstays
  | input => exact absurd rfl hi

/-- The output after an instruction, and what the sink has received. -/
theorem output_perform (h : m.Tallies c hasSink commands) (i : Instruction) :
    (m.perform i).output.toList.map (fun byte => (byte.toNat : Int)) =
        c.shown (commands ++ [i.command]) ∧
      (m.perform i).sink = if hasSink then some (m.perform i).output else none := by
  have hcell := h.cell_eq
  rw [h.pointer] at hcell
  rw [TapeConfig.shown_concat, ← h.output, ← hcell]
  have hsink := h.sink
  obtain ⟨tape, input, output, sink, stats⟩ := m
  obtain ⟨command, index, offset⟩ := i
  cases command with
  | output =>
      constructor
      · show (output.push tape.cell).toList.map _ = _
        rw [Array.toList_push, List.map_append, if_pos rfl]
        rfl
      · show sink.map (fun received => received.push tape.cell) = _
        dsimp only at hsink
        rw [hsink]
        cases hasSink <;> rfl
  | input => cases input <;> exact ⟨(List.append_nil _).symm, hsink⟩
  | moveLeft | moveRight | increment | decrement | loopOpen | loopClose =>
      exact ⟨(List.append_nil _).symm, hsink⟩

/-- **An instruction that is accepted and reads nothing is counted.** -/
theorem perform (h : m.Tallies c hasSink commands) {i : Instruction} (ho : m.obstacle? i = none)
    (hi : i.command ≠ .input) : (m.perform i).Tallies c hasSink (commands ++ [i.command]) where
  tape := fits_perform h.tape ho
  steps := by
    rw [steps_perform, h.steps, List.length_append]
    rfl
  pointer := by
    rw [displacement_concat]
    exact pointer_perform h.tape h.pointer ho
  cells := h.cells_perform ho hi
  output := (h.output_perform i).1
  sink := (h.output_perform i).2

/-! ## What a bounded tape refuses -/

section Bounded

variable (hw : c.wraps = false)

include hw

/-- On a bounded tape the pointer is the displacement. -/
theorem pointer_eq (h : m.Tallies c hasSink commands) :
    (m.tape.pointer : Int) = displacement commands := by
  rw [h.pointer, TapeConfig.place, hw]
  rfl

/-- On a bounded tape a cell holds its net value. -/
theorem net_eq (h : m.Tallies c hasSink commands) (cell : Nat) :
    c.net commands cell = (m.tape.get cell).toNat := by
  rw [h.cells, TapeConfig.value, hw]
  rfl

/-- A machine never stands outside of the ranges of a bounded tape. -/
theorem admits (h : m.Tallies c hasSink commands) : c.Admits commands where
  pointer := by
    have hlt := h.tape.pointer_lt
    rw [← h.pointer_eq hw]
    omega
  cells := by
    intro cell _
    have hbyte := (m.tape.get cell).toNat_lt
    rw [h.net_eq hw]
    omega

/-- The net value of a cell after one more command leaves a range only at the pointer. -/
theorem exists_net_concat_iff (h : m.Tallies c hasSink commands) (x : Command)
    (outside : Int → Prop) (hinside : ∀ byte : UInt8, ¬ outside byte.toNat) :
    (∃ cell < c.length.cells, outside (c.net (commands ++ [x]) cell)) ↔
      outside (m.tape.cell.toNat + x.gain) := by
  have hplace : c.place (displacement commands) = m.tape.pointer := h.pointer.symm
  constructor
  · rintro ⟨cell, -, houtside⟩
    rw [TapeConfig.net_concat, hplace, h.net_eq hw] at houtside
    by_cases hcell : (m.tape.pointer : Int) = cell
    · rw [if_pos hcell] at houtside
      obtain rfl := Int.natCast_inj.1 hcell
      exact houtside
    · rw [if_neg hcell, Int.add_zero] at houtside
      exact absurd houtside (hinside _)
  · intro houtside
    refine ⟨m.tape.pointer, h.tape.pointer_lt, ?_⟩
    rw [TapeConfig.net_concat, hplace, if_pos rfl, h.net_eq hw]
    exact houtside

/-- **The counts leave their ranges with the command that the tape refuses**, past the edge at which
it is refused. -/
theorem exceeded_iff (h : m.Tallies c hasSink commands) (x : Command) (e : Edge) :
    e.Exceeded c (commands ++ [x]) ↔ m.edge? x = some e := by
  have hpointer := h.tape.pointer_lt
  have hsize := h.tape.size_eq
  have hbyte := m.tape.cell.toNat_lt
  have hzero : m.tape.cell = 0 ↔ m.tape.cell.toNat = 0 := UInt8.toNat_inj.symm
  have hlast : m.tape.cell = 255 ↔ m.tape.cell.toNat = 255 := UInt8.toNat_inj.symm
  -- no byte is outside of the range of a cell, so only the cell under the pointer can leave it
  have hlow := h.exists_net_concat_iff hw x (· < 0) fun byte => by omega
  have hhigh := h.exists_net_concat_iff hw x (255 < ·) fun byte => by
    have hlt := byte.toNat_lt
    omega
  cases e with
  | pointerUnderflow =>
      rw [Edge.Exceeded, displacement_concat, ← h.pointer_eq hw]
      cases x <;> simp [Command.delta, edge?]
      all_goals omega
  | pointerOverflow =>
      rw [Edge.Exceeded, displacement_concat, ← h.pointer_eq hw]
      cases x <;> simp [Command.delta, edge?]
      all_goals omega
  | cellUnderflow =>
      rw [Edge.Exceeded, hlow]
      cases x <;> simp [Command.gain, edge?, hzero]
      all_goals omega
  | cellOverflow =>
      rw [Edge.Exceeded, hhigh]
      cases x <;> simp [Command.gain, edge?, hlast]
      all_goals omega

end Bounded

end Tallies

end Machine

/-! ## Runs -/

/-- The body of instructions in sequence. -/
def Body.straight : List Instruction → Body
  | [] => .nil
  | i :: rest => .instr i (straight rest)

theorem Body.flatten_straight (instructions : List Instruction) :
    (straight instructions).flatten = instructions := by
  induction instructions with
  | nil => rfl
  | cons i rest ih => rw [straight, flatten, ih]

/-- An instruction that stands in a straight line and reads nothing. -/
def Instruction.IsPlain (i : Instruction) : Prop :=
  i.command.isDelimiter = false ∧ i.command ≠ .input

/-- How a run ends, as the counts of its commands say: all of them are counted, or a bounded tape
refuses the first one with which the counts leave their ranges. -/
inductive Counted (c : TapeConfig) (hasSink : Bool) (commands : List Command) :
    Run Unit → Prop where
  | finished (m : Machine) :
      m.Tallies c hasSink commands →
      (c.wraps = false → ∀ k ≤ commands.length, c.Admits (commands.take k)) →
        Counted c hasSink commands ⟨.finished, m.settle, ()⟩
  | refused (m : Machine) (k : Nat) (e : Edge) :
      c.wraps = false → k < commands.length → m.Tallies c hasSink (commands.take k) →
      (∀ j ≤ k, c.Admits (commands.take j)) →
      (∀ e' : Edge, e'.Exceeded c (commands.take (k + 1)) ↔ e' = e) →
        Counted c hasSink commands
          ⟨.blocked (.fault (.edge e k (displacement (commands.take k)))), m, ()⟩

variable {c : TapeConfig} {hasSink : Bool}

/-- The counts of all beginnings are in their ranges, also with one command more. -/
theorem TapeConfig.admits_take_concat {before : List Command} {x : Command}
    (hbefore : ∀ k ≤ before.length, c.Admits (before.take k)) (hlast : c.Admits (before ++ [x])) :
    ∀ k ≤ (before ++ [x]).length, c.Admits ((before ++ [x]).take k) := by
  intro k hk
  rcases Nat.lt_or_ge before.length k with hwhole | hearlier
  · have hall : (before ++ [x]).length ≤ k := by
      rw [List.length_append]
      exact hwhole
    rw [List.take_of_length_le hall]
    exact hlast
  · rw [List.take_append_of_le_length hearlier]
    exact hbefore k hearlier

/-- A run that a bounded tape refuses the next command ends as the counts say. -/
theorem Counted.of_edge {m : Machine} {before : List Command} (hw : c.wraps = false)
    (hm : m.Tallies c hasSink before) (hbefore : ∀ k ≤ before.length, c.Admits (before.take k))
    {x : Command} {e : Edge} (he : m.edge? x = some e) (rest : List Command) :
    Counted c hasSink (before ++ x :: rest)
      ⟨.blocked (.fault (.edge e before.length m.tape.pointer)), m, ()⟩ := by
  have htake : (before ++ x :: rest).take before.length = before := List.take_left
  have htake' : (before ++ x :: rest).take (before.length + 1) = before ++ [x] := by
    rw [List.take_length_add_append]
    rfl
  have hpointer : (m.tape.pointer : Int) =
      displacement ((before ++ x :: rest).take before.length) := by
    rw [htake]
    exact hm.pointer_eq hw
  rw [hpointer]
  apply Counted.refused m before.length e hw
  · simp
  · rw [htake]
    exact hm
  · intro j hj
    rw [List.take_append_of_le_length hj]
    exact hbefore j hj
  · intro e'
    rw [htake', hm.exceeded_iff hw, he, Option.some_inj, eq_comm]

/-- **A run of instructions in sequence is counted**, also if it begins in the middle. One move for
each instruction is enough, and two more for the end. -/
theorem counted_of_tallies {instructions : List Instruction}
    (hplain : ∀ i ∈ instructions, i.IsPlain) {m : Machine} {before : List Command}
    (hm : m.Tallies c hasSink before)
    (hbefore : c.wraps = false → ∀ k ≤ before.length, c.Admits (before.take k))
    (hnumbered : NumberedFrom before.length instructions) :
    ∃ r, Counted c hasSink (before ++ instructions.map Instruction.command) r ∧
      ∀ extra, Execution.run .idle (extra + instructions.length + 2)
        ⟨[{ rest := .straight instructions }], m, ()⟩ = r := by
  -- an accepted instruction goes over from those that are left to the commands that were counted
  induction instructions generalizing m before with
  | nil =>
      rw [List.map_nil, List.append_nil]
      exact ⟨_, .finished m hm hbefore, fun extra => rfl⟩
  | cons i rest ih =>
      obtain ⟨hi, hrest⟩ := List.forall_mem_cons.1 hplain
      obtain ⟨hindex, hnumbered'⟩ := hnumbered
      cases ho : m.obstacle? i with
      | none =>
          have hperform := hm.perform ho hi.2
          have hlength : ((before ++ [i.command]).length : Int) = before.length + 1 := by simp
          rw [← hlength] at hnumbered'
          obtain ⟨r, hcounted, hrun⟩ := ih hrest hperform
            (fun hw => TapeConfig.admits_take_concat (hbefore hw) (hperform.admits hw)) hnumbered'
          rw [List.append_assoc] at hcounted
          refine ⟨r, hcounted, ?_⟩
          intro extra
          rw [← hrun extra]
          apply Execution.run_succ_of_moves
          simp [Execution.Moves, Execution.step, Body.straight, ho, Watcher.idle]
      | some o =>
          obtain ⟨hw, e, he, rfl⟩ :=
            Machine.exists_edge_of_obstacle? hi.1 hm.tape.pointer_lt_size ho
          rw [hm.tape.config_eq] at hw
          refine ⟨⟨.blocked (.fault (.edge e i.index m.tape.pointer)), m, ()⟩, ?_, ?_⟩
          · rw [hindex]
            exact .of_edge hw hm (hbefore hw) he (rest.map Instruction.command)
          · intro extra
            apply Execution.run_succ_of_ended
            simp [Execution.step, Body.straight, ho]

/-! ## Texts -/

/-- The instructions of a text without loops and input. -/
theorem isPlain_of_mem_lex {source : String}
    (h : ∀ ch ∈ source.toList, ch ≠ '[' ∧ ch ≠ ']' ∧ ch ≠ ',') :
    ∀ i ∈ lex source, i.IsPlain := by
  intro i hi
  obtain ⟨k, hk⟩ := List.mem_iff_getElem?.1 hi
  obtain ⟨-, offset, -, hsymbol⟩ := getElem?_lex hk
  obtain ⟨hopen, hclose, hinput⟩ := h _ (List.mem_of_getElem? hsymbol)
  unfold Instruction.IsPlain
  cases hcommand : i.command with
  | loopOpen => exact absurd (congrArg Command.symbol hcommand) hopen
  | loopClose => exact absurd (congrArg Command.symbol hcommand) hclose
  | input => exact absurd (congrArg Command.symbol hcommand) hinput
  | moveLeft | moveRight | increment | decrement | output => decide

/-- A text without loops and input is a program, the one of its instructions in sequence. -/
theorem parse_of_isPlain {source : String} (h : ∀ i ∈ lex source, i.IsPlain) :
    ∃ p : Program, (parse source).value = .ok p ∧ p.body = .straight (lex source) := by
  have hflat := Body.flatten_straight (lex source)
  have hfree : (Body.straight (lex source)).DelimiterFree := by
    apply Body.all_of_flatten
    rw [hflat]
    exact fun i hi => (h i hi).1
  have hnest := nestLogged_flatten hfree
  rw [hflat] at hnest
  exact ⟨_, (parse_value source).trans hnest, rfl⟩

/-- What the interpretation of a text comes to, if it may make two moves more than the text has
instructions, or any number above that. -/
def InterpretsTo (source : String) (c : TapeConfig) (input : List UInt8) (hasSink : Bool)
    (failure : Option Failure) (m : Machine) : Prop :=
  ∀ fuel, (lex source).length + 2 ≤ fuel →
    (interpret fuel source c input hasSink).value = ⟨failure, m, ()⟩

theorem InterpretsTo.unique {source : String} {input : List UInt8}
    {failure failure' : Option Failure} {m m' : Machine}
    (h : InterpretsTo source c input hasSink failure m)
    (h' : InterpretsTo source c input hasSink failure' m') : failure = failure' ∧ m = m' := by
  have hsame := (h _ (Nat.le_refl _)).symm.trans (h' _ (Nat.le_refl _))
  cases hsame
  exact ⟨rfl, rfl⟩

/-- The interpretation of a text without loops and input is counted. -/
theorem counted_interpret {source : String} (h : ∀ i ∈ lex source, i.IsPlain) (c : TapeConfig)
    (input : List UInt8) (hasSink : Bool) :
    ∃ r, Counted c hasSink ((lex source).map Instruction.command) r ∧
      InterpretsTo source c input hasSink r.ending.failure? r.machine := by
  obtain ⟨p, hparse, hbody⟩ := parse_of_isPlain h
  have hblank := Machine.tallies_start c input hasSink
  obtain ⟨r, hcounted, hrun⟩ := counted_of_tallies h hblank (fun hw k _ => by
    rw [List.take_nil]
    exact hblank.admits hw) (numberedFrom_lex source)
  refine ⟨r, hcounted, ?_⟩
  intro fuel hfuel
  obtain ⟨extra, rfl⟩ := Nat.exists_eq_add_of_le' hfuel
  have hvalue := value_interpretWatched_of_ok .idle () (extra + ((lex source).length + 2)) hparse c
    input hasSink
  rw [Machine.run, hbody, ← Nat.add_assoc, hrun extra] at hvalue
  exact hvalue

/-- **A text without loops and input comes to what its commands count.** A tape that wraps around
refuses nothing: the pointer ends at the displacement modulo the length, and cells and outputs show
the net values of their cells modulo 256. A bounded tape comes to the same without a modulus exactly
if the counts of all beginnings of the text are in its ranges. Otherwise it refuses the command that
first leaves them, at the one edge that the counts exceed with it, and has counted and put out what
the commands before it say. -/
theorem straight_line_is_counted {source : String}
    (h : ∀ ch ∈ source.toList, ch ≠ '[' ∧ ch ≠ ']' ∧ ch ≠ ',') (c : TapeConfig)
    (input : List UInt8) (hasSink : Bool) :
    let commands := (lex source).map Instruction.command
    (c.policy = .wrapping → ∃ m, InterpretsTo source c input hasSink none m ∧
      m.Tallies c hasSink commands ∧
      m.stats.finalPointer = displacement commands % c.length.cells) ∧
    (c.policy = .bounded →
      ((∃ m, InterpretsTo source c input hasSink none m) ↔
        ∀ k ≤ commands.length, c.Admits (commands.take k)) ∧
      (∀ m, InterpretsTo source c input hasSink none m → m.Tallies c hasSink commands ∧
        m.stats.finalPointer = displacement commands) ∧
      ∀ k < commands.length, (∀ j ≤ k, c.Admits (commands.take j)) →
        ¬ c.Admits (commands.take (k + 1)) →
          ∃ (e : Edge) (m : Machine),
            (∀ e' : Edge, e'.Exceeded c (commands.take (k + 1)) ↔ e' = e) ∧
            InterpretsTo source c input hasSink
              (some (.fault (.edge e k (displacement (commands.take k))))) m ∧
            m.Tallies c hasSink (commands.take k)) := by
  intro commands
  obtain ⟨r, hcounted, hr⟩ := counted_interpret (isPlain_of_mem_lex h) c input hasSink
  cases hcounted with
  | finished m hm hadmits =>
      constructor
      · intro hpolicy
        have hw : c.wraps = true := by rw [TapeConfig.wraps, hpolicy]; rfl
        refine ⟨m.settle, hr, hm.settle, ?_⟩
        show (m.tape.pointer : Int) = _
        rw [hm.pointer, TapeConfig.place, if_pos hw]
      · intro hpolicy
        have hw : c.wraps = false := TapeConfig.wraps_eq_false_iff.2 hpolicy
        refine ⟨⟨fun _ => hadmits hw, fun _ => ⟨_, hr⟩⟩, ?_, ?_⟩
        · intro m' hm'
          obtain ⟨-, rfl⟩ := hr.unique hm'
          exact ⟨hm.settle, hm.pointer_eq hw⟩
        · intro k hk _ hnot
          exact absurd (hadmits hw (k + 1) hk) hnot
  | refused m k e hw hk hm hadmits he =>
      have hnot : ¬ c.Admits (commands.take (k + 1)) := by
        intro hall
        exact TapeConfig.admits_iff.1 hall e ((he e).2 rfl)
      have hfails : ∀ m', ¬ InterpretsTo source c input hasSink none m' := by
        intro m' hm'
        cases (hr.unique hm').1
      constructor
      · intro hpolicy
        rw [TapeConfig.wraps, hpolicy] at hw
        cases hw
      · intro _
        refine ⟨⟨?_, ?_⟩, ?_, ?_⟩
        · rintro ⟨m', hm'⟩
          exact absurd hm' (hfails m')
        · intro hall
          exact absurd (hall (k + 1) hk) hnot
        · intro m' hm'
          exact absurd hm' (hfails m')
        · intro k' _ hadmits' hnot'
          -- there is only one command that is the first to leave the ranges
          rcases Nat.lt_trichotomy k k' with hlt | rfl | hgt
          · exact absurd (hadmits' (k + 1) hlt) hnot
          · exact ⟨e, m, he, hr, hm⟩
          · exact absurd (hadmits (k' + 1) hgt) hnot'

/-- A text that puts out a byte and then takes one too much from its cell. A tape of two cells that
wraps around goes on to the cell on the left of the first one, where a bounded tape has stopped. -/
theorem straight_line_below_zero :
    let bounded : TapeConfig := { length := .number 2 }
    let ring : TapeConfig := { policy := .wrapping, length := .number 2 }
    (∀ ch ∈ "+.>+<--<.".toList, ch ≠ '[' ∧ ch ≠ ']' ∧ ch ≠ ',') ∧
    (∃ m, InterpretsTo "+.>+<--<." ring [7] true none m ∧ m.stats.finalPointer = 1 ∧
      m.output.toList.map (fun byte => (byte.toNat : Int)) = [1, 1] ∧
      ((m.tape.get 0).toNat : Int) = 255) ∧
    ∃ m, InterpretsTo "+.>+<--<." bounded [7] true
        (some (.fault (.edge .cellUnderflow 6 0))) m ∧
      m.output.toList.map (fun byte => (byte.toNat : Int)) = [1] := by
  intro bounded ring
  have hall : "+.>+<--<.".toList.all (fun ch => ch ≠ '[' ∧ ch ≠ ']' ∧ ch ≠ ',') = true := by decide
  have hplain : ∀ ch ∈ "+.>+<--<.".toList, ch ≠ '[' ∧ ch ≠ ']' ∧ ch ≠ ',' := by
    intro ch hch
    exact of_decide_eq_true (List.all_eq_true.1 hall ch hch)
  obtain ⟨m, hring, hm, hfinal⟩ := (straight_line_is_counted hplain ring [7] true).1 rfl
  obtain ⟨-, -, hrefused⟩ := (straight_line_is_counted hplain bounded [7] true).2 rfl
  obtain ⟨e, m', he, hbounded, hm'⟩ := hrefused 6 (by decide) (by decide) (by decide)
  obtain rfl : Edge.cellUnderflow = e := (he _).1 ⟨0, by decide, by decide⟩
  have hfinal' : (m.stats.finalPointer : Int) = 1 := hfinal
  exact ⟨hplain, ⟨m, hring, by omega, hm.output, hm.cells 0⟩, m', hbounded, hm'.output⟩

end TapeLang
