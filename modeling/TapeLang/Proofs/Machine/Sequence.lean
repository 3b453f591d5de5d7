import Mathlib.Tactic.SplitIfs
import TapeLang.Proofs.Machine.Lockstep
import TapeLang.Proofs.Machine.Structured

/-!
# Programs in sequence

A body that is done hands its machine on to the nodes after it, and a body that meets an obstacle
does not (`executes_append_iff`, `Executes.append_of_blocked`).

Two runs one after the other differ from one run in two respects. The first one notes where the
pointer stands when it finishes, and the second program has labels of its own. Nothing a program
does depends on that note or on its labels, except how obstacles are named (`Machine.run_relabel`).
So a program that begins with another one ends as its second part does on the machine that the first
part leaves behind (`Machine.ends_append_iff`).
-/

set_option autoImplicit false

namespace TapeLang

/-! ## Two bodies in sequence -/

namespace Executes

variable {a b : Body} {m m' : Machine} {o : Obstacle} {r r' : Outcome}

/-- A body has one outcome at most. -/
theorem unique (h : Executes b m r) (h' : Executes b m r') : r = r' := by
  -- the first node and the machine leave only one rule to choose
  induction h generalizing r' with
  | nil m =>
      cases h'
      rfl
  | instr hi _ ih =>
      cases h' with
      | instr _ hrest => exact ih hrest
      | refused hi' => rw [hi] at hi'; cases hi'
  | refused hi =>
      cases h' with
      | instr hi' _ => rw [hi] at hi'; cases hi'
      | refused hi' =>
          rw [hi] at hi'
          cases hi'
          rfl
  | skip hcell _ ih =>
      cases h' with
      | skip _ hrest => exact ih hrest
      | pass hcell' | stopped hcell' => exact absurd hcell hcell'
  | pass hcell _ _ ihInner ih =>
      cases h' with
      | skip hcell' => exact absurd hcell' hcell
      | pass _ hinner hagain =>
          cases ihInner hinner
          exact ih hagain
      | stopped _ hinner => cases ihInner hinner
  | stopped hcell _ ihInner =>
      cases h' with
      | skip hcell' => exact absurd hcell' hcell
      | pass _ hinner _ => cases ihInner hinner
      | stopped _ hinner =>
          cases ihInner hinner
          rfl

/-- What comes after a body that is done is executed on what it leaves behind. -/
theorem append (ha : Executes a m (.done m')) (hb : Executes b m' r) : Executes (a ++ b) m r := by
  -- the nodes of `b` take the place of the end of `a`, wherever its execution comes to
  generalize hout : Outcome.done m' = out at ha
  induction ha with
  | nil m =>
      cases hout
      exact hb
  | instr hi _ ih => exact .instr hi (ih hout)
  | refused hi => cases hout
  | skip hcell _ ih => exact .skip hcell (ih hout)
  | pass hcell hinner _ _ ih => exact .pass hcell hinner (ih hout)
  | stopped hcell _ => cases hout

/-- What comes after a body that meets an obstacle is not executed. -/
theorem append_of_blocked (ha : Executes a m (.blocked o m')) (b : Body) :
    Executes (a ++ b) m (.blocked o m') := by
  generalize hout : Outcome.blocked o m' = out at ha
  induction ha with
  | nil m => cases hout
  | instr hi _ ih => exact .instr hi (ih hout)
  | refused hi =>
      cases hout
      exact .refused hi
  | skip hcell _ ih => exact .skip hcell (ih hout)
  | pass hcell hinner _ _ ih => exact .pass hcell hinner (ih hout)
  | stopped hcell hinner =>
      cases hout
      exact .stopped hcell hinner

end Executes

/-- **Two bodies in sequence**, of which the first is done. -/
theorem executes_append_iff {a b : Body} {m m' : Machine} {r : Outcome}
    (ha : Executes a m (.done m')) : Executes (a ++ b) m r ↔ Executes b m' r := by
  constructor
  · intro h
    rcases h.of_append with ⟨e, ha', hb⟩ | ⟨o, e, rfl, ha'⟩
    · cases ha.unique ha'
      exact hb
    · cases ha.unique ha'
  · exact ha.append

/-! ## Where the last run finished -/

namespace Machine

/-- The same machine with another place noted where the last run finished. -/
def noting (pointer : Nat) (m : Machine) : Machine :=
  m.onStats fun s => { s with finalPointer := pointer }

theorem noting_settle (m : Machine) : m.settle.noting m.stats.finalPointer = m := rfl

theorem perform_noting (pointer : Nat) (m : Machine) (i : Instruction) :
    (m.noting pointer).perform i = (m.perform i).noting pointer := by
  obtain ⟨tape, input, output, sink, stats⟩ := m
  obtain ⟨command, index, offset⟩ := i
  cases command with
  | moveLeft | moveRight | increment | decrement | output | loopOpen | loopClose => rfl
  | input => cases input <;> rfl

theorem finalPointer_perform (m : Machine) (i : Instruction) :
    (m.perform i).stats.finalPointer = m.stats.finalPointer := by
  have hnoting := m.perform_noting m.stats.finalPointer i
  exact congrArg (fun m => m.stats.finalPointer) hnoting

end Machine

/-- The machine that an execution leaves behind. -/
def Outcome.machine : Outcome → Machine
  | done m | blocked _ m => m

/-- The rules note nothing about the pointer. -/
theorem Executes.finalPointer_eq {b : Body} {m : Machine} {r : Outcome} (h : Executes b m r) :
    r.machine.stats.finalPointer = m.stats.finalPointer := by
  induction h with
  | nil m => rfl
  | @instr i rest m r hi _ ih => exact ih.trans (m.finalPointer_perform i)
  | refused hi => rfl
  | skip hcell _ ih => exact ih
  | pass hcell _ _ ihInner ih => exact ih.trans ihInner
  | stopped hcell _ ih => exact ih

/-! ## Other labels -/

/-- A fault at another place of the program. -/
def Fault.reindex (g : Int → Int) : Fault → Fault
  | general i => general (g i)
  | structural i => structural (g i)
  | unmatchedOpen i => unmatchedOpen (g i)
  | unmatchedClose i => unmatchedClose (g i)
  | tape i pointer => tape (g i) pointer
  | edge e i pointer => edge e (g i) pointer

theorem Fault.kind_reindex (g : Int → Int) (f : Fault) : (f.reindex g).kind = f.kind := by
  cases f <;> rfl

theorem Fault.pointer?_reindex (g : Int → Int) (f : Fault) :
    (f.reindex g).pointer? = f.pointer? := by
  cases f <;> rfl

theorem Fault.index_reindex (g : Int → Int) (f : Fault) : (f.reindex g).index = g f.index := by
  cases f <;> rfl

/-- An obstacle with other labels. -/
def Obstacle.relabel (l : Relabelling) : Obstacle → Obstacle
  | fault f => fault (f.reindex l.index)
  | delimiter i => delimiter (l.instruction i)

/-- A run with other labels and another note about the run before it. -/
def Run.relabel (l : Relabelling) (pointer : Nat) (r : Run Unit) : Run Unit where
  ending := r.ending.map (Obstacle.relabel l)
  machine := if r.ending = .finished then r.machine else r.machine.noting pointer
  watched := ()

/-- Only a finished run is relabelled to a finished one, and it is so without a change. -/
theorem Run.relabel_eq_finished_iff {l : Relabelling} {pointer : Nat} {r : Run Unit}
    {m : Machine} : r.relabel l pointer = ⟨.finished, m, ()⟩ ↔ r = ⟨.finished, m, ()⟩ := by
  obtain ⟨ending, m', _⟩ := r
  cases ending <;> simp [relabel, Ending.map]

theorem Tape.moveFault?_reindex (t : Tape) (delta index : Int) (g : Int → Int) :
    t.moveFault? delta (g index) = (t.moveFault? delta index).map (Fault.reindex g) := by
  simp only [moveFault?]
  split_ifs <;> rfl

theorem Tape.addFault?_reindex (t : Tape) (delta index : Int) (g : Int → Int) :
    t.addFault? delta (g index) = (t.addFault? delta index).map (Fault.reindex g) := by
  simp only [addFault?]
  split_ifs <;> rfl

namespace Machine

variable {l : Relabelling}

/-- The label of an instruction decides only how an obstacle is named. -/
theorem obstacle?_relabel (hl : l.Faithful) (m : Machine) (i : Instruction) :
    m.obstacle? (l.instruction i) = (m.obstacle? i).map (Obstacle.relabel l) := by
  rw [obstacle?, obstacle?, hl.command_eq, hl.index_eq]
  cases i.command with
  | moveLeft | moveRight =>
      simp only [Tape.moveFault?_reindex, Option.map_map]
      rfl
  | increment | decrement =>
      simp only [Tape.addFault?_reindex, Option.map_map]
      rfl
  | output | input | loopOpen | loopClose => rfl

theorem perform_relabel (hl : l.Faithful) (m : Machine) (i : Instruction) :
    m.perform (l.instruction i) = m.perform i := by
  rw [perform, hl.command_eq]
  rfl

end Machine

/-- Neither the labels nor the note about the last run matter. -/
theorem simulation_relabel {l : Relabelling} (hl : l.Faithful) (pointer : Nat) :
    Simulation .idle .idle l (fun _ => True) fun m _ m' _ => m' = m.noting pointer where
  within _ := trivial
  cell_eq := by
    rintro m _ m' _ rfl
    rfl
  iterate := by
    rintro m _ m' _ rfl
    rfl
  accepts := by
    rintro m _ m' _ i rfl ho _
    show m.obstacle? (l.instruction i) = none
    rw [m.obstacle?_relabel hl, ho]
    rfl
  halts_eq := by
    intro m _ m' _ i _ _ _
    rfl
  perform := by
    rintro m _ m' _ i rfl _ _
    rw [Machine.perform_relabel hl, Machine.perform_noting]

/-- **A run under other labels**, after a run that finished elsewhere. -/
theorem Machine.run_relabel {l : Relabelling} (hl : l.Faithful) {p p' : Program}
    (hp : p'.body = p.body.relabel l) (pointer : Nat) (m : Machine) (fuel : Nat) :
    (m.noting pointer).run .idle () fuel p' = (m.run .idle () fuel p).relabel l pointer := by
  generalize hr : m.run .idle () fuel p = r
  obtain ⟨m₁, _, _, rfl, hmachine, hrun⟩ :=
    (simulation_relabel hl pointer).run_of_refuses (f := Obstacle.relabel l) (by
      rintro m _ m' _ i o rfl ho
      show m.obstacle? (l.instruction i) = _
      rw [m.obstacle?_relabel hl, ho]
      rfl) hp rfl hr trivial
  obtain ⟨ending, m', _⟩ := r
  obtain rfl : m' = ending.leave m₁ := hmachine
  rw [hrun]
  cases ending <;> rfl

/-! ## Programs in sequence -/

namespace Machine

/-- The unwatched run of a program ends, given enough moves. -/
def Ends (m : Machine) (p : Program) (r : Run Unit) : Prop :=
  Execution.Ends .idle ⟨[{ rest := p.body }], m, ()⟩ r

variable {m m₁ : Machine} {p q whole : Program} {r : Run Unit} {l : Relabelling}

/-- A run ends where the rules say. -/
theorem ends_iff_executes :
    m.Ends p r ↔ ∃ out, Execution.Shows r out ∧ Executes p.body m out := by
  constructor
  · intro h
    obtain ⟨out, hshows, hout⟩ := Execution.executes_of_ends h
    have hpending : pending [{ rest := p.body }] = p.body := p.body.append_nil
    rw [hpending] at hout
    exact ⟨out, hshows, hout⟩
  · rintro ⟨out, hshows, hout⟩
    obtain ⟨r', hshows', hends⟩ := Execution.ends_of_executes_body hout
    cases hshows <;> cases hshows' <;> exact hends

/-- A run under other labels ends exactly if the run does. -/
theorem ends_relabel_iff (hl : l.Faithful) (hq : q.body = p.body.relabel l) (pointer : Nat) :
    (m.noting pointer).Ends q r ↔ ∃ r₁, m.Ends p r₁ ∧ r₁.relabel l pointer = r := by
  have hout : ∀ ending : Ending,
      ending.map (Obstacle.relabel l) = .outOfFuel ↔ ending = .outOfFuel := by
    intro ending
    cases ending <;> simp [Ending.map]
  constructor
  · rintro ⟨fuel, hrun, hending⟩
    obtain rfl := (run_relabel hl hq pointer m fuel).symm.trans hrun
    exact ⟨_, ⟨fuel, rfl, mt (hout _).2 hending⟩, rfl⟩
  · rintro ⟨_, ⟨fuel, rfl, hending⟩, rfl⟩
    exact ⟨fuel, run_relabel hl hq pointer m fuel, mt (hout _).1 hending⟩

/-- **A program that begins with another one, and goes on with a third under other labels.** If the
one finishes, the whole ends exactly as the third one does afterwards. -/
theorem ends_append_iff (hl : l.Faithful) (hwhole : whole.body = p.body ++ q.body.relabel l)
    (hp : m.Ends p ⟨.finished, m₁, ()⟩) :
    m.Ends whole r ↔ ∃ r₁, m₁.Ends q r₁ ∧ r₁.relabel l m.stats.finalPointer = r := by
  obtain ⟨out, hshows, hdone⟩ := ends_iff_executes.1 hp
  cases hshows with
  | finished e =>
      -- without the note that ends the first run, the machine is the one in the middle of the whole
      have hnoted : e.settle.noting m.stats.finalPointer = e := by
        rw [← hdone.finalPointer_eq]
        exact e.noting_settle
      rw [← ends_relabel_iff hl (q := { body := q.body.relabel l }) rfl, hnoted,
        ends_iff_executes, ends_iff_executes, hwhole]
      simp only [executes_append_iff hdone]

/-- If the first program meets an obstacle, the whole meets it as well. -/
theorem ends_append_of_blocked {b : Body} (hwhole : whole.body = p.body ++ b) {o : Obstacle}
    (hp : m.Ends p ⟨.blocked o, m₁, ()⟩) : m.Ends whole ⟨.blocked o, m₁, ()⟩ := by
  obtain ⟨out, hshows, hblocked⟩ := ends_iff_executes.1 hp
  cases hshows with
  | blocked o m₁ =>
      rw [ends_iff_executes, hwhole]
      exact ⟨_, .blocked o m₁, hblocked.append_of_blocked b⟩

/-- The whole ends only if the first program does. -/
theorem exists_ends_of_append {b : Body} (hwhole : whole.body = p.body ++ b)
    (h : m.Ends whole r) : ∃ r₁, m.Ends p r₁ := by
  obtain ⟨out, -, hout⟩ := ends_iff_executes.1 h
  rw [hwhole] at hout
  rcases hout.of_append with ⟨e, hdone, -⟩ | ⟨o, e, -, hblocked⟩
  · exact ⟨_, ends_iff_executes.2 ⟨_, .finished e, hdone⟩⟩
  · exact ⟨_, ends_iff_executes.2 ⟨_, .blocked o e, hblocked⟩⟩

end Machine

end TapeLang
