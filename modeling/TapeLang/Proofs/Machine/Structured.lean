import TapeLang.Proofs.Machine.Moves

/-!
# Structured execution

`Executes` says what a body does to a machine by the structure of the body: instructions are
executed from left to right, and a loop is skipped at a zero cell and otherwise is one pass through
its contents and then the same loop again. There are no frames in it.

A run with frames does the same (`run_iff_executes`). What a stack of frames still has to do is a
body as well, `pending`, and every move keeps its execution. The two places where a run tests a loop
are one place in the rules, because a finished pass and a loop that is met make the same move
(`step_finished_pass`).
-/

set_option autoImplicit false

namespace TapeLang

/-! ## The rules -/

/-- How an execution ends: it is done, or it met an obstacle; and what it left behind. -/
inductive Outcome where
  | done (m : Machine)
  | blocked (o : Obstacle) (m : Machine)

/-- The execution of a body on a machine. -/
inductive Executes : Body → Machine → Outcome → Prop where
  | nil (m : Machine) : Executes .nil m (.done m)
  /-- An instruction is executed and counted, and then the nodes after it. -/
  | instr {i : Instruction} {rest : Body} {m : Machine} {r : Outcome} :
      m.obstacle? i = none →
        Executes rest ((m.apply i.command).onStats fun s => { s with steps := s.steps + 1 }) r →
          Executes (.instr i rest) m r
  /-- An obstacle ends everything. -/
  | refused {i : Instruction} {rest : Body} {m : Machine} {o : Obstacle} :
      m.obstacle? i = some o → Executes (.instr i rest) m (.blocked o m)
  /-- A loop does nothing at a zero cell. -/
  | skip {inner rest : Body} {openIndex closeIndex : Int} {m : Machine} {r : Outcome} :
      m.tape.cell = 0 → Executes rest m r → Executes (.loop inner openIndex closeIndex rest) m r
  /-- Otherwise a pass is counted and its contents are executed, and then the same loop again. -/
  | pass {inner rest : Body} {openIndex closeIndex : Int} {m m' : Machine} {r : Outcome} :
      m.tape.cell ≠ 0 →
        Executes inner (m.onStats fun s => { s with loopIterations := s.loopIterations + 1 })
          (.done m') →
          Executes (.loop inner openIndex closeIndex rest) m' r →
            Executes (.loop inner openIndex closeIndex rest) m r
  /-- An obstacle inside a pass ends everything. The pass is counted all the same. -/
  | stopped {inner rest : Body} {openIndex closeIndex : Int} {m m' : Machine} {o : Obstacle} :
      m.tape.cell ≠ 0 →
        Executes inner (m.onStats fun s => { s with loopIterations := s.loopIterations + 1 })
          (.blocked o m') →
          Executes (.loop inner openIndex closeIndex rest) m (.blocked o m')

/-! ## Sequences of nodes -/

namespace Body

/-- The nodes of one body, and then those of another. -/
def append : Body → Body → Body
  | nil, b => b
  | instr i rest, b => instr i (rest.append b)
  | loop inner openIndex closeIndex rest, b => loop inner openIndex closeIndex (rest.append b)

instance : Append Body := ⟨append⟩

@[simp] theorem nil_append (b : Body) : nil ++ b = b := rfl

@[simp] theorem instr_append (i : Instruction) (rest b : Body) :
    instr i rest ++ b = instr i (rest ++ b) := rfl

@[simp] theorem loop_append (inner : Body) (openIndex closeIndex : Int) (rest b : Body) :
    loop inner openIndex closeIndex rest ++ b = loop inner openIndex closeIndex (rest ++ b) := rfl

@[simp] theorem append_nil (b : Body) : b ++ nil = b := by
  induction b with
  | nil => rfl
  | instr i rest ih => rw [instr_append, ih]
  | loop inner openIndex closeIndex rest _ ih => rw [loop_append, ih]

end Body

/-- The execution of two bodies in sequence ends in the first one, or goes through it. -/
theorem Executes.of_append {a b : Body} {m : Machine} {r : Outcome} (h : Executes (a ++ b) m r) :
    (∃ m', Executes a m (.done m') ∧ Executes b m' r) ∨
      ∃ o m', r = .blocked o m' ∧ Executes a m (.blocked o m') := by
  generalize hab : a ++ b = ab at h
  induction h generalizing a with
  | nil m =>
      cases a with
      | nil =>
          obtain rfl : b = _ := hab
          exact .inl ⟨m, .nil m, .nil m⟩
      | instr i rest => cases hab
      | loop inner openIndex closeIndex rest => cases hab
  | @instr i rest m r hi hrest ih =>
      cases a with
      | nil =>
          obtain rfl : b = _ := hab
          exact .inl ⟨m, .nil m, .instr hi hrest⟩
      | instr j rest' =>
          cases hab
          rcases ih rfl with ⟨m', ha, hb⟩ | ⟨o, m', rfl, ha⟩
          · exact .inl ⟨m', .instr hi ha, hb⟩
          · exact .inr ⟨o, m', rfl, .instr hi ha⟩
      | loop inner openIndex closeIndex rest => cases hab
  | @refused i rest m o hi =>
      cases a with
      | nil =>
          obtain rfl : b = _ := hab
          exact .inl ⟨m, .nil m, .refused hi⟩
      | instr j rest' =>
          cases hab
          exact .inr ⟨o, m, rfl, .refused hi⟩
      | loop inner openIndex closeIndex rest => cases hab
  | @skip inner rest openIndex closeIndex m r hcell hrest ih =>
      cases a with
      | nil =>
          obtain rfl : b = _ := hab
          exact .inl ⟨m, .nil m, .skip hcell hrest⟩
      | instr j rest' => cases hab
      | loop inner' openIndex' closeIndex' rest' =>
          cases hab
          rcases ih rfl with ⟨m', ha, hb⟩ | ⟨o, m', rfl, ha⟩
          · exact .inl ⟨m', .skip hcell ha, hb⟩
          · exact .inr ⟨o, m', rfl, .skip hcell ha⟩
  | @pass inner rest openIndex closeIndex m m' r hcell hinner hagain _ ih =>
      cases a with
      | nil =>
          obtain rfl : b = _ := hab
          exact .inl ⟨m, .nil m, .pass hcell hinner hagain⟩
      | instr j rest' => cases hab
      | loop inner' openIndex' closeIndex' rest' =>
          cases hab
          rcases ih (a := .loop inner openIndex closeIndex rest') rfl with
            ⟨m'', ha, hb⟩ | ⟨o, m'', rfl, ha⟩
          · exact .inl ⟨m'', .pass hcell hinner ha, hb⟩
          · exact .inr ⟨o, m'', rfl, .pass hcell hinner ha⟩
  | @stopped inner rest openIndex closeIndex m m' o hcell hinner _ =>
      cases a with
      | nil =>
          obtain rfl : b = _ := hab
          exact .inl ⟨m, .nil m, .stopped hcell hinner⟩
      | instr j rest' => cases hab
      | loop inner' openIndex' closeIndex' rest' =>
          cases hab
          exact .inr ⟨o, m', rfl, .stopped hcell hinner⟩

/-- The indices of a loop play no part in its execution. -/
theorem Executes.reindex {inner rest : Body} {openIndex closeIndex : Int} {m : Machine}
    {r : Outcome} (h : Executes (.loop inner openIndex closeIndex rest) m r)
    (openIndex' closeIndex' : Int) : Executes (.loop inner openIndex' closeIndex' rest) m r := by
  generalize hb : Body.loop inner openIndex closeIndex rest = b at h
  induction h with
  | nil m => cases hb
  | instr hi hrest ih => cases hb
  | refused hi => cases hb
  | skip hcell hrest ih =>
      cases hb
      exact .skip hcell hrest
  | pass hcell hinner hagain ihInner ih =>
      cases hb
      exact .pass hcell hinner (ih rfl)
  | stopped hcell hinner ih =>
      cases hb
      exact .stopped hcell hinner

/-! ## What a stack of frames still has to do -/

/-- The nodes that a stack of frames still has to execute: the rest of each pass, and after the
pass of a loop the loop again. -/
def pending : List Frame → Body
  | [] => .nil
  | ⟨rest, none⟩ :: outer => rest ++ pending outer
  | ⟨rest, some inner⟩ :: outer => rest ++ .loop inner 0 0 (pending outer)

@[simp] theorem pending_instr (i : Instruction) (rest : Body) (again : Option Body)
    (outer : List Frame) :
    pending (⟨.instr i rest, again⟩ :: outer) = .instr i (pending (⟨rest, again⟩ :: outer)) := by
  cases again <;> rfl

@[simp] theorem pending_loop (inner : Body) (openIndex closeIndex : Int) (rest : Body)
    (again : Option Body) (outer : List Frame) :
    pending (⟨.loop inner openIndex closeIndex rest, again⟩ :: outer) =
      .loop inner openIndex closeIndex (pending (⟨rest, again⟩ :: outer)) := by
  cases again <;> rfl

/-- A pass through a loop that is left to do, and then the loop, is the loop at a cell that is not
zero. -/
theorem Executes.of_pass {inner rest : Body} {m : Machine} {r : Outcome}
    (hcell : m.tape.cell ≠ 0) (h : Executes (inner ++ .loop inner 0 0 rest) m.iterate r)
    (openIndex closeIndex : Int) : Executes (.loop inner openIndex closeIndex rest) m r := by
  rcases h.of_append with ⟨m', hinner, hloop⟩ | ⟨o, m', rfl, hinner⟩
  · exact .pass hcell hinner (hloop.reindex openIndex closeIndex)
  · exact .stopped hcell hinner

namespace Execution

/-- **A move keeps what there is to execute.** -/
theorem executes_of_moves {e e' : Execution Unit} (h : Moves .idle e e') {r : Outcome}
    (hr : Executes (pending e'.frames) e'.machine r) : Executes (pending e.frames) e.machine r := by
  rcases e with ⟨frames, m, s⟩
  unfold Moves at h
  match frames with
  | [] => cases h
  | ⟨.nil, none⟩ :: outer =>
      cases h
      exact hr
  | ⟨.nil, some inner⟩ :: outer =>
      simp only [step] at h
      split at h
      · cases h
        exact .skip (by assumption) hr
      · cases h
        exact .of_pass (by assumption) hr 0 0
  | ⟨.loop inner openIndex closeIndex rest, again⟩ :: outer =>
      simp only [step] at h
      rw [pending_loop]
      split at h
      · cases h
        exact .skip (by assumption) hr
      · cases h
        exact .of_pass (by assumption) hr openIndex closeIndex
  | ⟨.instr i rest, again⟩ :: outer =>
      simp only [step] at h
      rw [pending_instr]
      cases ho : m.obstacle? i with
      | some o => simp [ho] at h
      | none =>
          simp only [ho, Watcher.idle] at h
          cases h
          exact .instr ho hr

/-- The outcome that the end of an unwatched run shows. -/
inductive Shows : Run Unit → Outcome → Prop where
  | finished (m : Machine) : Shows ⟨.finished, m.settle, ()⟩ (.done m)
  | blocked (o : Obstacle) (m : Machine) : Shows ⟨.blocked o, m, ()⟩ (.blocked o m)

/-- The last move shows the outcome of what is left. -/
theorem shows_of_step {e : Execution Unit} {r : Run Unit} (h : e.step .idle = .ended r) :
    ∃ out, Shows r out ∧ Executes (pending e.frames) e.machine out := by
  obtain ⟨frames, m, s⟩ := e
  rcases ended_cases h with ⟨rfl, rfl⟩ | ⟨i, rest, again, outer, o, rfl, ho, rfl⟩
  · exact ⟨.done m, .finished m, .nil m⟩
  · refine ⟨.blocked o m, .blocked o m, ?_⟩
    rw [pending_instr]
    exact .refused ho

/-- **A run that ends shows an outcome of the rules.** -/
theorem executes_of_ends {e : Execution Unit} {r : Run Unit} (h : e.Ends .idle r) :
    ∃ out, Shows r out ∧ Executes (pending e.frames) e.machine out := by
  obtain ⟨last, hmoves, hlast⟩ := ends_iff_moves.1 h
  obtain ⟨out, hshows, hout⟩ := shows_of_step hlast
  refine ⟨out, hshows, ?_⟩
  clear h hlast hshows
  induction hmoves using Relation.ReflTransGen.head_induction_on with
  | refl => exact hout
  | head hmove _ ih => exact executes_of_moves hmove ih

/-! ## From the rules to the run -/

/-- After a pass the loop is tested as if it were met for the first time. -/
theorem step_finished_pass (watcher : Watcher Unit) (inner rest : Body)
    (openIndex closeIndex : Int) (again : Option Body) (outer : List Frame) (m : Machine) :
    step watcher ⟨⟨.nil, some inner⟩ :: ⟨rest, again⟩ :: outer, m, ()⟩ =
      step watcher ⟨⟨.loop inner openIndex closeIndex rest, again⟩ :: outer, m, ()⟩ := rfl

/-- Runs with the same first move end alike. -/
theorem ends_congr {e e' : Execution Unit} (h : e.step .idle = e'.step .idle) {r : Run Unit}
    (hr : e'.Ends .idle r) : e.Ends .idle r := by
  obtain ⟨fuel, hrun, hending⟩ := hr
  cases fuel with
  | zero =>
      subst hrun
      exact absurd rfl hending
  | succ fuel =>
      refine ⟨fuel + 1, ?_, hending⟩
      rw [← hrun]
      simp only [run, h]

/-- **A frame does what the rules say.** If the rules say that the rest of a frame is done, the run
ends as it does from the frame with nothing left; if they say that an obstacle is met, the run ends
there. -/
theorem ends_of_executes {b : Body} {m : Machine} {out : Outcome} (h : Executes b m out)
    (again : Option Body) (outer : List Frame) :
    match out with
    | .done m' => ∀ r, Ends .idle ⟨⟨.nil, again⟩ :: outer, m', ()⟩ r →
        Ends .idle ⟨⟨b, again⟩ :: outer, m, ()⟩ r
    | .blocked o m' => Ends .idle ⟨⟨b, again⟩ :: outer, m, ()⟩ ⟨.blocked o, m', ()⟩ := by
  induction h generalizing again outer with
  | nil m => exact fun r hr => hr
  | @instr i rest m out hi _ ih =>
      have hmove : Moves .idle ⟨⟨.instr i rest, again⟩ :: outer, m, ()⟩
          ⟨⟨rest, again⟩ :: outer, m.perform i, ()⟩ := by
        simp [Moves, step, hi, Watcher.idle]
      cases out with
      | done m' => exact fun r hr => ends_of_moves (.single hmove) (ih again outer r hr)
      | blocked o m' => exact ends_of_moves (.single hmove) (ih again outer)
  | @refused i rest m o hi =>
      refine ends_of_step ?_
      simp [step, hi]
  | @skip inner rest openIndex closeIndex m out hcell _ ih =>
      have hmove : Moves .idle ⟨⟨.loop inner openIndex closeIndex rest, again⟩ :: outer, m, ()⟩
          ⟨⟨rest, again⟩ :: outer, m, ()⟩ := by
        simp [Moves, step, hcell]
      cases out with
      | done m' => exact fun r hr => ends_of_moves (.single hmove) (ih again outer r hr)
      | blocked o m' => exact ends_of_moves (.single hmove) (ih again outer)
  | @pass inner rest openIndex closeIndex m m' out hcell _ _ ihInner ihAgain =>
      have hmove : Moves .idle ⟨⟨.loop inner openIndex closeIndex rest, again⟩ :: outer, m, ()⟩
          ⟨⟨inner, some inner⟩ :: ⟨rest, again⟩ :: outer, m.iterate, ()⟩ := by
        simp [Moves, step, hcell]
      -- the pass ends where the loop would be met again
      have hpass : ∀ r,
          Ends .idle ⟨⟨.loop inner openIndex closeIndex rest, again⟩ :: outer, m', ()⟩ r →
          Ends .idle ⟨⟨.loop inner openIndex closeIndex rest, again⟩ :: outer, m, ()⟩ r := by
        intro r hr
        refine ends_of_moves (.single hmove) (ihInner (some inner) (⟨rest, again⟩ :: outer) r ?_)
        exact ends_congr
          (step_finished_pass .idle inner rest openIndex closeIndex again outer m') hr
      cases out with
      | done m'' => exact fun r hr => hpass r (ihAgain again outer r hr)
      | blocked o m'' => exact hpass _ (ihAgain again outer)
  | @stopped inner rest openIndex closeIndex m m' o hcell _ ih =>
      have hmove : Moves .idle ⟨⟨.loop inner openIndex closeIndex rest, again⟩ :: outer, m, ()⟩
          ⟨⟨inner, some inner⟩ :: ⟨rest, again⟩ :: outer, m.iterate, ()⟩ := by
        simp [Moves, step, hcell]
      exact ends_of_moves (.single hmove) (ih (some inner) (⟨rest, again⟩ :: outer))

/-- The run of a whole body shows the outcome of the rules. -/
theorem ends_of_executes_body {b : Body} {m : Machine} {out : Outcome} (h : Executes b m out) :
    ∃ r, Shows r out ∧ Ends .idle ⟨[{ rest := b }], m, ()⟩ r := by
  have hframe := ends_of_executes h none []
  cases out with
  | blocked o m' => exact ⟨_, .blocked o m', hframe⟩
  | done m' =>
      refine ⟨_, .finished m', hframe _ ?_⟩
      have hpop : Moves .idle ⟨[⟨.nil, none⟩], m', ()⟩ ⟨[], m', ()⟩ := rfl
      exact ends_of_moves (.single hpop) (ends_of_step rfl)

end Execution

/-- The end of an unwatched run of a program, without the number of moves. -/
theorem Machine.exists_run_iff_ends (m : Machine) (p : Program) (r : Run Unit)
    (hr : r.ending ≠ .outOfFuel) :
    (∃ fuel, m.run .idle () fuel p = r) ↔ Execution.Ends .idle ⟨[{ rest := p.body }], m, ()⟩ r := by
  constructor
  · rintro ⟨fuel, hrun⟩
    exact ⟨fuel, hrun, hr⟩
  · rintro ⟨fuel, hrun, -⟩
    exact ⟨fuel, hrun⟩

/-- **A run does what the rules say.** Whatever the machine, the run of a program finishes where
the rules say that the program is done, with the pointer noted in addition; it meets an obstacle
where the rules say so; and it never ends exactly if the rules give the program no outcome. -/
theorem run_iff_executes (p : Program) (m : Machine) :
    (∀ m', (∃ fuel, m.run .idle () fuel p = ⟨.finished, m', ()⟩) ↔
      ∃ e, Executes p.body m (.done e) ∧ m' = e.settle) ∧
    (∀ o m', (∃ fuel, m.run .idle () fuel p = ⟨.blocked o, m', ()⟩) ↔
      Executes p.body m (.blocked o m')) ∧
    ((∀ fuel, (m.run .idle () fuel p).ending = .outOfFuel) ↔
      ¬ ∃ out, Executes p.body m out) := by
  have hpending : pending [{ rest := p.body }] = p.body ++ .nil := rfl
  refine ⟨?_, ?_, ?_⟩
  · intro m'
    rw [m.exists_run_iff_ends p _ (by simp)]
    constructor
    · intro hends
      obtain ⟨out, hshows, hout⟩ := Execution.executes_of_ends hends
      rcases hshows with ⟨e⟩ | _
      rw [hpending, Body.append_nil] at hout
      exact ⟨e, hout, rfl⟩
    · rintro ⟨e, he, rfl⟩
      obtain ⟨r, hshows, hends⟩ := Execution.ends_of_executes_body he
      cases hshows
      exact hends
  · intro o m'
    rw [m.exists_run_iff_ends p _ (by simp)]
    constructor
    · intro hends
      obtain ⟨out, hshows, hout⟩ := Execution.executes_of_ends hends
      cases hshows
      rw [hpending, Body.append_nil] at hout
      exact hout
    · intro hout
      obtain ⟨r, hshows, hends⟩ := Execution.ends_of_executes_body hout
      cases hshows
      exact hends
  · constructor
    · rintro hendless ⟨out, hout⟩
      obtain ⟨r, -, hends⟩ := Execution.ends_of_executes_body hout
      exact Execution.not_endless_iff.2 ⟨r, hends⟩ hendless
    · intro hnone
      refine Classical.byContradiction fun hnot => ?_
      obtain ⟨r, hends⟩ := Execution.not_endless_iff.1 hnot
      obtain ⟨out, -, hout⟩ := Execution.executes_of_ends hends
      rw [hpending, Body.append_nil] at hout
      exact hnone ⟨out, hout⟩

end TapeLang
