import TapeLang.Proofs.Machine.Edges
import TapeLang.Proofs.Machine.Moves
import TapeLang.Proofs.Machine.Sightings

/-!
# Refused instructions

Every edge of a bounded tape has its command and its place: the tape refuses that command there and
nowhere else (`Machine.edge?_eq_some_iff`, `Execution.not_reached_of_moves`).

A refused instruction changes nothing. Between the last executed instruction and the refused one a
run can only enter loops, so the machine at the end of the run is the one right after the last
executed instruction but for the count of passes (`Machine.rightAfter_of_blocked`). What that
counter counts are the moves into the body of a loop (`Execution.loopIterations_run`).
-/

set_option autoImplicit false

namespace TapeLang

/-! ## Edges and their commands -/

/-- The command that goes past an edge. -/
def Edge.command : Edge → Command
  | pointerUnderflow => .moveLeft
  | pointerOverflow => .moveRight
  | cellUnderflow => .decrement
  | cellOverflow => .increment

/-- A tape with a certain configuration stands at an edge. -/
def Edge.Reached (c : TapeConfig) (t : Tape) : Edge → Prop
  | pointerUnderflow => t.pointer = 0
  | pointerOverflow => t.pointer + 1 = c.length.cells
  | cellUnderflow => t.cell = 0
  | cellOverflow => t.cell = 255

/-- Edges are told apart by the symbols of their commands. -/
theorem Edge.symbol_command_inj {e e' : Edge} :
    e.command.symbol = e'.command.symbol ↔ e = e' := by
  cases e <;> cases e' <;> decide

/-- **A command goes past an edge exactly if it is the command of the edge, at the edge.** -/
theorem Machine.edge?_eq_some_iff {m : Machine} {c : TapeConfig} (h : m.tape.Fits c)
    {command : Command} {e : Edge} :
    m.edge? command = some e ↔ command = e.command ∧ e.Reached c m.tape := by
  have hsize := h.size_eq
  have hlt := h.pointer_lt
  have hend : m.tape.size ≤ m.tape.pointer + 1 ↔ m.tape.pointer + 1 = c.length.cells := by omega
  cases command <;> cases e <;> simp [edge?, Edge.command, Edge.Reached, hend]

/-! ## Moves of a program on its tape -/

namespace Execution

variable {σ : Type} {watcher : Watcher σ} {e e' : Execution σ} {c : TapeConfig}

/-- A move keeps the tape in shape. -/
theorem fits_of_moves (hfits : e.machine.tape.Fits c) (h : Moves watcher e e') :
    e'.machine.tape.Fits c := by
  unfold Moves at h
  revert h
  fun_cases step watcher e with
  | case1 | case7 | case8 => rintro ⟨⟩
  | case2 | case3 | case4 | case5 | case6 =>
      -- a loop is tested or left, which leaves the tape alone
      rintro ⟨⟩
      exact hfits
  | case9 i rest again outer m s ho m' s' hw =>
      rintro ⟨⟩
      exact Machine.fits_perform hfits ho

/-- So do all moves of a run. -/
theorem fits_of_reaches (hfits : e.machine.tape.Fits c)
    (h : Relation.ReflTransGen (Moves watcher) e e') : e'.machine.tape.Fits c := by
  induction h with
  | refl => exact hfits
  | tail _ hmove ih => exact fits_of_moves ih hmove

/-- What is executed was not refused. -/
theorem obstacle?_of_moves (h : Moves watcher e e') {i : Instruction} {rest : Body}
    {again : Option Body} {outer : List Frame}
    (hframes : e.frames = ⟨.instr i rest, again⟩ :: outer) :
    e.machine.obstacle? i = none := by
  obtain ⟨frames, m, s⟩ := e
  obtain rfl : frames = _ := hframes
  cases ho : m.obstacle? i with
  | none => rfl
  | some o => simp [Moves, step, ho] at h

/-- **No instruction is executed at its edge of a bounded tape.** -/
theorem not_reached_of_moves (hbounded : c.wraps = false) (hfits : e.machine.tape.Fits c)
    (h : Moves watcher e e') {i : Instruction} {rest : Body} {again : Option Body}
    {outer : List Frame} (hframes : e.frames = ⟨.instr i rest, again⟩ :: outer) {edge : Edge}
    (hcommand : i.command = edge.command) : ¬ edge.Reached c e.machine.tape := by
  intro hreached
  have hwraps : e.machine.tape.config.wraps = false := hfits.config_eq ▸ hbounded
  obtain ⟨-, hnone⟩ := Machine.edge?_eq_none_of_obstacle? hfits.pointer_lt_size hwraps
    (obstacle?_of_moves h hframes)
  rw [(Machine.edge?_eq_some_iff hfits).2 ⟨hcommand, hreached⟩] at hnone
  cases hnone

/-! ## Loop entries -/

/-- Whether the next move goes into the body of a loop, for a first or for another pass. -/
def entersLoop : Execution σ → Bool
  | ⟨⟨.nil, some _⟩ :: _, m, _⟩ => m.tape.cell != 0
  | ⟨⟨.loop _ _ _ _, _⟩ :: _, m, _⟩ => m.tape.cell != 0
  | _ => false

/-- The number of moves into the body of a loop that a run makes within `fuel` moves. -/
def loopEntries (watcher : Watcher σ) : Nat → Execution σ → Nat
  | 0, _ => 0
  | fuel + 1, e =>
      match e.step watcher with
      | .running e' => e.entersLoop.toNat + e'.loopEntries watcher fuel
      | .ended _ => 0

end Execution

theorem Machine.loopIterations_perform (m : Machine) (i : Instruction) :
    (m.perform i).stats.loopIterations = m.stats.loopIterations := by
  obtain ⟨tape, input, output, sink, stats⟩ := m
  obtain ⟨command, index, offset⟩ := i
  cases command with
  | moveLeft | moveRight | increment | decrement | output | loopOpen | loopClose => rfl
  | input => cases input <;> rfl

namespace Execution

variable {σ : Type} {watcher : Watcher σ} {e e' : Execution σ}

/-- A move is counted as a pass exactly if it goes into the body of a loop. -/
theorem loopIterations_of_moves (h : Moves watcher e e') :
    e'.machine.stats.loopIterations = e.machine.stats.loopIterations + e.entersLoop.toNat := by
  unfold Moves at h
  revert h
  fun_cases step watcher e with
  | case1 | case7 | case8 => rintro ⟨⟩
  | case2 =>
      rintro ⟨⟩
      rfl
  | case3 inner outer m s hcell | case5 inner openIndex closeIndex rest again outer m s hcell =>
      rintro ⟨⟩
      simp [entersLoop, hcell]
  | case4 inner outer m s hcell | case6 inner openIndex closeIndex rest again outer m s hcell =>
      rintro ⟨⟩
      have henters : (m.tape.cell != 0) = true := bne_iff_ne.2 hcell
      show _ + 1 = _ + (m.tape.cell != 0).toNat
      rw [henters]
      rfl
  | case9 i rest again outer m s ho m' s' hw =>
      rintro ⟨⟩
      exact m.loopIterations_perform i

/-- The last move is not counted as a pass. -/
theorem loopIterations_of_ended {r : Run σ} (h : e.step watcher = .ended r) :
    r.machine.stats.loopIterations = e.machine.stats.loopIterations := by
  revert h
  fun_cases step watcher e with
  | case1 | case7 =>
      rintro ⟨⟩
      rfl
  | case8 i rest again outer m s ho m' s' hw =>
      rintro ⟨⟩
      exact m.loopIterations_perform i
  | case2 | case3 | case4 | case5 | case6 | case9 => rintro ⟨⟩

/-- **A run counts its moves into the bodies of loops, and nothing else, as passes.** -/
theorem loopIterations_run (watcher : Watcher σ) (fuel : Nat) (e : Execution σ) :
    (e.run watcher fuel).machine.stats.loopIterations =
      e.machine.stats.loopIterations + e.loopEntries watcher fuel := by
  induction fuel generalizing e with
  | zero => rfl
  | succ fuel ih =>
      cases hstep : e.step watcher with
      | ended r =>
          rw [run_succ_of_ended hstep, loopIterations_of_ended hstep]
          simp [loopEntries, hstep]
      | running e' =>
          rw [run_succ_of_moves hstep, ih e', loopIterations_of_moves hstep]
          simp [loopEntries, hstep, Nat.add_assoc]

end Execution

/-! ## The machine before a refused instruction -/

namespace Machine

/-- The machine after a number of passes were counted, and nothing else happened. -/
def passed (n : Nat) (m : Machine) : Machine :=
  m.onStats fun s => { s with loopIterations := s.loopIterations + n }

theorem passed_iterate (n : Nat) (m : Machine) : m.iterate.passed n = m.passed (n + 1) := by
  have hcount : m.stats.loopIterations + 1 + n = m.stats.loopIterations + (n + 1) := by omega
  exact congrArg (fun k => m.onStats fun s => { s with loopIterations := k }) hcount

/-- The machine `m'` is the one right after the given sightings of the run of a program, or the one
at its beginning if there are none. -/
def RightAfter (m : Machine) (p : Program) (seen : List Sighting) (m' : Machine) : Prop :=
  (seen = [] ∧ m' = m) ∨ m.Passes p seen m'

end Machine

/-- A refused run goes from its last executed instruction to the refused one through passes only. -/
theorem Course.last_executed {fuel : Nat} {frames : List Frame} {m : Machine}
    {seen : Array Sighting} {r : Run (Array Sighting)} {o : Obstacle}
    (h : Course (.recording none) fuel frames m seen r) (hblocked : r.ending = .blocked o) :
    ∃ n m', r.machine = m'.passed n ∧
      ((r.watched = seen ∧ m' = m) ∨ (seen.size < r.watched.size ∧
        Execution.run (.recording (some r.watched.size)) fuel ⟨frames, m, seen⟩ =
          ⟨.halted, m', r.watched⟩)) := by
  induction h with
  | out | finish => cases hblocked
  | @refused fuel frames frames' m s i o' hd ho => exact ⟨0, m, rfl, .inl ⟨rfl, rfl⟩⟩
  | proceed hd _ ih =>
      obtain ⟨n, m', hmachine, hlast⟩ := ih hblocked
      refine ⟨n, m', hmachine, hlast.imp id ?_⟩
      rintro ⟨hsize, hrun⟩
      rw [Course.run_eq (.proceed hd (course_run ..))]
      exact ⟨hsize, hrun⟩
  | @pass fuel frames frames' m s r hd _ ih =>
      obtain ⟨n, m', hmachine, ⟨hwatched, rfl⟩ | ⟨hsize, hrun⟩⟩ := ih hblocked
      · exact ⟨n + 1, m, hmachine.trans (m.passed_iterate n), .inl ⟨hwatched, rfl⟩⟩
      · refine ⟨n, m', hmachine, .inr ?_⟩
        rw [Course.run_eq (.pass hd (course_run ..))]
        exact ⟨hsize, hrun⟩
  | halted _ _ ha => simp [Watcher.after_recording_none] at ha
  | @executed fuel frames frames' m seen seen' i r hd ho ha hcourse ih =>
      rw [Watcher.after_recording_none, Prod.mk.injEq] at ha
      obtain ⟨rfl, -⟩ := ha
      obtain ⟨n, m', hmachine, ⟨hwatched, rfl⟩ | ⟨hsize, hrun⟩⟩ := ih hblocked
      · -- nothing is executed after this, so a watcher who waits for this sighting halts here
        refine ⟨n, m.perform i, hmachine, .inr ⟨by simp [hwatched], ?_⟩⟩
        have hafter : (Watcher.recording (some r.watched.size)).after seen m i =
            (r.watched, true) := by
          simp [Watcher.after_recording_some, hwatched]
        rw [Course.run_eq (.halted hd ho hafter)]
      · rw [Array.size_push] at hsize
        refine ⟨n, m', hmachine, .inr ⟨by omega, ?_⟩⟩
        have hafter : (Watcher.recording (some r.watched.size)).after seen m i =
            (seen.push (m.sighting i), false) := by
          rw [Watcher.after_recording_some, decide_eq_false (by omega)]
        rw [Course.run_eq (.executed hd ho hafter (course_run ..)), hrun]

/-- **A refused instruction changes nothing.** The machine that a refused run leaves behind is the
one right after its last executed instruction, but for the passes counted since. -/
theorem Machine.rightAfter_of_blocked {m m' : Machine} {p : Program} {fuel : Nat} {o : Obstacle}
    {seen : List Sighting}
    (h : m.run (.recording none) #[] fuel p = ⟨.blocked o, m', seen.toArray⟩) :
    ∃ n m₁, m.RightAfter p seen m₁ ∧ m' = m₁.passed n := by
  obtain ⟨n, m₁, hmachine, hlast⟩ := (course_of_run h).last_executed rfl
  refine ⟨n, m₁, ?_, hmachine⟩
  rcases hlast with ⟨hwatched, rfl⟩ | ⟨-, hrun⟩
  · exact .inl ⟨by simpa using hwatched, rfl⟩
  · exact .inr ⟨fuel, hrun⟩

end TapeLang
