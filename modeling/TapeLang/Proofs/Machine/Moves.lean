import Mathlib.Logic.Relation
import TapeLang.Machine.Run

/-!
# Moves of a running program

A run with a permitted number of moves is a sequence of moves. `Execution.Ends` forgets the number:
a running program ends in a certain way if it does so with enough moves. It then ends in no other
way (`Ends.unique`), and it ends exactly if finitely many moves lead to a last one
(`ends_iff_moves`).
-/

set_option autoImplicit false

namespace TapeLang.Execution

variable {σ : Type} (watcher : Watcher σ)

/-- One move that does not end the run. -/
def Moves (e e' : Execution σ) : Prop :=
  e.step watcher = .running e'

/-- The run ends, given enough moves. -/
def Ends (e : Execution σ) (r : Run σ) : Prop :=
  ∃ fuel, e.run watcher fuel = r ∧ r.ending ≠ .outOfFuel

/-- The run never ends. -/
def Endless (e : Execution σ) : Prop :=
  ∀ fuel, (e.run watcher fuel).ending = .outOfFuel

variable {watcher}

/-- The last move is made by a program that is not out of moves. -/
theorem ending_of_step {e : Execution σ} {r : Run σ} (h : e.step watcher = .ended r) :
    r.ending ≠ .outOfFuel := by
  revert h
  fun_cases step watcher e with
  | case1 m s =>
      rintro ⟨⟩
      simp
  | case7 i rest again outer m s o ho =>
      rintro ⟨⟩
      simp
  | case8 i rest again outer m s hm m' s' hw =>
      rintro ⟨⟩
      simp
  | case2 | case3 | case4 | case5 | case6 | case9 =>
      rintro ⟨⟩

theorem run_succ_of_moves {e e' : Execution σ} (h : Moves watcher e e') (fuel : Nat) :
    e.run watcher (fuel + 1) = e'.run watcher fuel := by
  have hstep : e.step watcher = .running e' := h
  simp only [run, hstep]

theorem run_succ_of_ended {e : Execution σ} {r : Run σ} (h : e.step watcher = .ended r)
    (fuel : Nat) : e.run watcher (fuel + 1) = r := by
  simp only [run, h]

/-- A run ends in one way only. -/
theorem Ends.unique {e : Execution σ} {r r' : Run σ} (h : e.Ends watcher r)
    (h' : e.Ends watcher r') : r = r' := by
  obtain ⟨fuel, rfl, hr⟩ := h
  obtain ⟨fuel', rfl, hr'⟩ := h'
  -- both are the run with all the moves of the two together
  rw [← run_add watcher fuel fuel' e hr, ← run_add watcher fuel' fuel e hr', Nat.add_comm]

theorem not_endless_iff {e : Execution σ} : ¬ e.Endless watcher ↔ ∃ r, e.Ends watcher r := by
  constructor
  · intro h
    obtain ⟨fuel, hfuel⟩ := Classical.not_forall.1 h
    exact ⟨_, fuel, rfl, hfuel⟩
  · rintro ⟨_, fuel, rfl, hr⟩ h
    exact hr (h fuel)

/-- A run ends as it does from any later place. -/
theorem ends_of_moves {e e' : Execution σ} (h : Relation.ReflTransGen (Moves watcher) e e')
    {r : Run σ} (hr : e'.Ends watcher r) : e.Ends watcher r := by
  induction h using Relation.ReflTransGen.head_induction_on with
  | refl => exact hr
  | head hmove _ ih =>
      obtain ⟨fuel, hrun, hending⟩ := ih
      exact ⟨fuel + 1, (run_succ_of_moves hmove fuel).trans hrun, hending⟩

theorem ends_of_step {e : Execution σ} {r : Run σ} (h : e.step watcher = .ended r) :
    e.Ends watcher r :=
  ⟨1, run_succ_of_ended h 0, ending_of_step h⟩

/-- **A run ends exactly if some moves lead to a last one.** -/
theorem ends_iff_moves {e : Execution σ} {r : Run σ} :
    e.Ends watcher r ↔
      ∃ e', Relation.ReflTransGen (Moves watcher) e e' ∧ e'.step watcher = .ended r := by
  constructor
  · rintro ⟨fuel, rfl, hr⟩
    induction fuel generalizing e with
    | zero => exact absurd rfl hr
    | succ fuel ih =>
        cases hstep : e.step watcher with
        | running e' =>
            rw [run_succ_of_moves hstep] at hr ⊢
            obtain ⟨last, hmoves, hlast⟩ := ih hr
            exact ⟨last, .head hstep hmoves, hlast⟩
        | ended r =>
            rw [run_succ_of_ended hstep]
            exact ⟨e, .refl, hstep⟩
  · rintro ⟨e', hmoves, hstep⟩
    exact ends_of_moves hmoves (ends_of_step hstep)

/-- The last move of an unwatched run: nothing is left, or an instruction is refused. -/
theorem ended_cases {e : Execution Unit} {r : Run Unit} (h : e.step .idle = .ended r) :
    (e.frames = [] ∧ r = ⟨.finished, e.machine.settle, ()⟩) ∨
      ∃ i rest again outer o, e.frames = ⟨.instr i rest, again⟩ :: outer ∧
        e.machine.obstacle? i = some o ∧ r = ⟨.blocked o, e.machine, ()⟩ := by
  rcases e with ⟨frames, m, s⟩
  match frames with
  | [] =>
      cases h
      exact .inl ⟨rfl, rfl⟩
  | ⟨.nil, none⟩ :: outer => cases h
  | ⟨.nil, some inner⟩ :: outer =>
      simp only [step] at h
      split at h <;> cases h
  | ⟨.loop inner openIndex closeIndex rest, again⟩ :: outer =>
      simp only [step] at h
      split at h <;> cases h
  | ⟨.instr i rest, again⟩ :: outer =>
      simp only [step] at h
      cases ho : m.obstacle? i with
      | none => simp [ho, Watcher.idle] at h
      | some o =>
          simp only [ho] at h
          cases h
          exact .inr ⟨i, rest, again, outer, o, rfl, ho, rfl⟩

/-- A run that never ends goes on, and not to where nothing is left. -/
theorem Endless.moves {e : Execution σ} (h : e.Endless watcher) :
    ∃ e', Moves watcher e e' ∧ e'.Endless watcher ∧ e'.frames ≠ [] := by
  cases hstep : e.step watcher with
  | ended r => exact absurd h (not_endless_iff.2 ⟨r, ends_of_step hstep⟩)
  | running e' =>
      have hmove : Moves watcher e e' := hstep
      refine ⟨e', hmove, ?_, ?_⟩
      · intro fuel
        rw [← run_succ_of_moves hmove]
        exact h (fuel + 1)
      · intro hframes
        obtain ⟨frames, m, s⟩ := e'
        obtain rfl : frames = [] := hframes
        exact not_endless_iff.2 ⟨_, ends_of_moves (.single hmove) (ends_of_step rfl)⟩ h

end TapeLang.Execution
