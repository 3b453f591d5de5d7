import TapeLang.Body
import TapeLang.Machine

/-!
# Running a program

A running program is a stack of frames, innermost first. Each frame holds what is left of one pass
through a body, and the frame of a loop also holds the whole body for the next pass. A loop tests
the cell under the pointer before its first pass and again after every pass.

Programs need not end, so `Execution.run` takes the number of moves it may make. A run that ends
ends in one of three ways: the program finished, an instruction met an obstacle, or the watcher,
who is shown the machine after every executed instruction, called a halt.
-/

set_option autoImplicit false

namespace TapeLang

/-- What a watcher is shown after an executed instruction. -/
structure Sighting where
  instruction : Instruction
  /-- The pointer after the instruction. -/
  pointer : Nat
  /-- The cell under the pointer after the instruction. -/
  cell : UInt8
  deriving DecidableEq, Repr

/-- A watcher with a state: it takes in a sighting, and says whether to halt. -/
abbrev Watcher (σ : Type) := σ → Sighting → σ × Bool

namespace Watcher

/-- A watcher that never halts and remembers nothing. -/
def idle : Watcher Unit :=
  fun _ _ => ((), false)

/-- A watcher that remembers every sighting. If it has a limit, it halts as soon as it has
remembered that many. -/
def recording (limit : Option Nat) : Watcher (Array Sighting) :=
  fun seen s =>
    let seen := seen.push s
    let full := limit.any fun n => n ≤ seen.size
    (seen, full)

end Watcher

/-- What is left of one pass through a body. -/
structure Frame where
  rest : Body
  /-- The body of the loop the frame belongs to, if it belongs to one. -/
  again : Option Body := none
  deriving DecidableEq, Repr

/-- How a run ends. -/
inductive Ending where
  | finished
  | blocked (o : Obstacle)
  | halted
  /-- The permitted number of moves was used up. -/
  | outOfFuel
  deriving DecidableEq, Repr

/-- A run that has ended: how, and what it left behind. -/
structure Run (σ : Type) where
  ending : Ending
  machine : Machine
  watched : σ

/-- A program that is running. -/
structure Execution (σ : Type) where
  /-- Innermost first. -/
  frames : List Frame
  machine : Machine
  watched : σ

/-- The result of one move. -/
inductive Progress (σ : Type) where
  | running (e : Execution σ)
  | ended (r : Run σ)

namespace Execution

variable {σ : Type}

/-- One move: end a pass, test a loop, or execute an instruction. -/
def step (watcher : Watcher σ) : Execution σ → Progress σ
  | ⟨[], m, s⟩ => .ended ⟨.finished, m.settle, s⟩
  | ⟨⟨.nil, none⟩ :: outer, m, s⟩ => .running ⟨outer, m, s⟩
  | ⟨⟨.nil, some inner⟩ :: outer, m, s⟩ =>
      if m.tape.cell = 0 then .running ⟨outer, m, s⟩
      else .running ⟨⟨inner, some inner⟩ :: outer, m.iterate, s⟩
  | ⟨⟨.loop inner _ _ rest, again⟩ :: outer, m, s⟩ =>
      if m.tape.cell = 0 then .running ⟨⟨rest, again⟩ :: outer, m, s⟩
      else .running ⟨⟨inner, some inner⟩ :: ⟨rest, again⟩ :: outer, m.iterate, s⟩
  | ⟨⟨.instr i rest, again⟩ :: outer, m, s⟩ =>
      match m.obstacle? i with
      | some o => .ended ⟨.blocked o, m, s⟩
      | none =>
          let m := m.perform i
          match watcher s ⟨i, m.tape.pointer, m.tape.cell⟩ with
          | (s, true) => .ended ⟨.halted, m, s⟩
          | (s, false) => .running ⟨⟨rest, again⟩ :: outer, m, s⟩

/-- Move until the run ends, at most `fuel` times. -/
def run (watcher : Watcher σ) : Nat → Execution σ → Run σ
  | 0, e => ⟨.outOfFuel, e.machine, e.watched⟩
  | fuel + 1, e =>
      match e.step watcher with
      | .running e' => e'.run watcher fuel
      | .ended r => r

/-- A run that has ended ends in the same way if it is permitted more moves. -/
theorem run_add (watcher : Watcher σ) (fuel extra : Nat) (e : Execution σ)
    (h : (e.run watcher fuel).ending ≠ .outOfFuel) :
    e.run watcher (fuel + extra) = e.run watcher fuel := by
  induction fuel generalizing e with
  | zero => exact absurd rfl h
  | succ fuel ih =>
      rw [Nat.succ_add]
      simp only [run] at h ⊢
      cases hs : e.step watcher with
      | running e' =>
          rw [hs] at h
          exact ih e' h
      | ended r => rfl

end Execution

/-- Run a program from its beginning on a machine as it stands. -/
def Machine.run {σ : Type} (watcher : Watcher σ) (watched : σ) (fuel : Nat) (p : Program)
    (m : Machine) : Run σ :=
  Execution.run watcher fuel ⟨[{ rest := p.body }], m, watched⟩

end TapeLang
