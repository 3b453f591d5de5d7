import Mathlib.Logic.Basic
import TapeLang.Proofs.Machine.Sequence

/-!
# Loops that do nothing

A loop is left only at a zero cell, whether it was skipped where it was met or has made some passes
(`cell_eq_zero_of_pastLoop`). A second loop right behind it finds that cell and does nothing, so it
can be deleted. The same is true of a loop at the beginning of a program, if the tape is blank.

The rules of structured execution say this in one place: what comes behind a loop is executed at a
zero cell only (`Executes.of_loop`). That one fact also shows that bodies may be exchanged inside of
a loop and behind it, so a loop may be deleted at any place of a tree
(`Body.DropsLoop.executes_iff`). The main statement is `loop_behind_loop_is_dead`.
-/

set_option autoImplicit false

namespace TapeLang

/-! ## Leaving a loop -/

/-- The frames before and after a move that goes on past a loop. -/
inductive PastLoop : List Frame → List Frame → Prop where
  /-- The loop is skipped where it is met. -/
  | skipped (inner : Body) (openIndex closeIndex : Int) (rest : Body) (again : Option Body)
      (outer : List Frame) :
      PastLoop (⟨.loop inner openIndex closeIndex rest, again⟩ :: outer) (⟨rest, again⟩ :: outer)
  /-- The loop is left after a pass. -/
  | left (inner : Body) (outer : List Frame) : PastLoop (⟨.nil, some inner⟩ :: outer) outer

/-- **A run goes on past a loop at a zero cell only.** -/
theorem Execution.cell_eq_zero_of_pastLoop {σ : Type} {watcher : Watcher σ} {e e' : Execution σ}
    (h : Moves watcher e e') (hpast : PastLoop e.frames e'.frames) :
    e'.machine.tape.cell = 0 := by
  obtain ⟨frames, m, s⟩ := e
  obtain ⟨frames', m', s'⟩ := e'
  -- a loop that makes another pass has one frame more than one that is left
  have htested : ∀ {on into : Execution σ}, on.machine = m → into.frames.length ≠ frames'.length →
      (if m.tape.cell = 0 then .running on else .running into) =
        Progress.running ⟨frames', m', s'⟩ → m'.tape.cell = 0 := by
    intro on into hon hinto htest
    split at htest
    · cases htest
      obtain rfl : m' = m := hon
      assumption
    · cases htest
      exact absurd rfl hinto
  unfold Moves at h
  simp only at hpast
  cases hpast with
  | skipped inner openIndex closeIndex rest again outer =>
      simp only [step] at h
      exact htested rfl (by simp) h
  | left inner =>
      simp only [step] at h
      exact htested rfl (by simp) h

/-! ## What is behind a loop -/

/-- At a zero cell a loop does nothing. -/
theorem executes_loop_iff_of_zero {inner rest : Body} {openIndex closeIndex : Int} {m : Machine}
    {out : Outcome} (hcell : m.tape.cell = 0) :
    Executes (.loop inner openIndex closeIndex rest) m out ↔ Executes rest m out := by
  constructor
  · intro h
    cases h with
    | skip _ hrest => exact hrest
    | pass hne => exact absurd hcell hne
    | stopped hne => exact absurd hcell hne
  · intro h
    exact .skip hcell h

/-- **What comes behind a loop is executed at a zero cell only.** So it may be exchanged for what
does the same there, and the contents for what does the same everywhere. -/
theorem Executes.of_loop {inner inner' rest rest' : Body} {openIndex closeIndex : Int} {m : Machine}
    {out : Outcome}
    (hinner : ∀ {m out}, Executes inner m out → Executes inner' m out)
    (hrest : ∀ {m out}, m.tape.cell = 0 → Executes rest m out → Executes rest' m out)
    (h : Executes (.loop inner openIndex closeIndex rest) m out) :
    Executes (.loop inner' openIndex closeIndex rest') m out := by
  generalize hb : Body.loop inner openIndex closeIndex rest = b at h
  -- by induction on the passes that the loop makes
  induction h with
  | nil m => cases hb
  | instr hi _ _ => cases hb
  | refused hi => cases hb
  | skip hcell hdone _ =>
      cases hb
      exact .skip hcell (hrest hcell hdone)
  | pass hcell hpass _ _ ih =>
      cases hb
      exact .pass hcell (hinner hpass) (ih rfl)
  | stopped hcell hpass _ =>
      cases hb
      exact .stopped hcell (hinner hpass)

/-- A loop that is done leaves a zero cell, after any number of passes. -/
theorem Executes.cell_eq_zero {inner : Body} {openIndex closeIndex : Int} {m m' : Machine}
    (h : Executes (.loop inner openIndex closeIndex .nil) m (.done m')) : m'.tape.cell = 0 := by
  generalize hb : Body.loop inner openIndex closeIndex .nil = b at h
  generalize hout : Outcome.done m' = out at h
  induction h with
  | nil m => cases hb
  | instr hi _ _ => cases hb
  | refused hi => cases hb
  | skip hcell hrest _ =>
      cases hb
      cases hrest
      cases hout
      exact hcell
  | pass hcell _ _ _ ih => exact ih hb hout
  | stopped hcell _ _ => cases hout

/-! ## Deleting a loop behind a loop -/

/-- The second body is the first one without one of its loops, which stands right behind another
loop, at the top or inside of any loop. -/
inductive Body.DropsLoop : Body → Body → Prop where
  | here (first : Body) (openIndex closeIndex : Int) (second : Body) (openIndex' closeIndex' : Int)
      (rest : Body) :
      DropsLoop (.loop first openIndex closeIndex (.loop second openIndex' closeIndex' rest))
        (.loop first openIndex closeIndex rest)
  | inside {inner inner' : Body} (openIndex closeIndex : Int) (rest : Body) :
      DropsLoop inner inner' →
        DropsLoop (.loop inner openIndex closeIndex rest) (.loop inner' openIndex closeIndex rest)
  | afterInstr (i : Instruction) {rest rest' : Body} :
      DropsLoop rest rest' → DropsLoop (.instr i rest) (.instr i rest')
  | afterLoop (inner : Body) (openIndex closeIndex : Int) {rest rest' : Body} :
      DropsLoop rest rest' →
        DropsLoop (.loop inner openIndex closeIndex rest) (.loop inner openIndex closeIndex rest')

/-- An instruction in front of two bodies that do the same. -/
theorem Executes.of_instr {i : Instruction} {rest rest' : Body} {m : Machine} {out : Outcome}
    (hrest : ∀ {m out}, Executes rest m out → Executes rest' m out)
    (h : Executes (.instr i rest) m out) : Executes (.instr i rest') m out := by
  cases h with
  | instr hi hdone => exact .instr hi (hrest hdone)
  | refused hi => exact .refused hi

/-- **Without a loop behind a loop, a body does the same.** -/
theorem Body.DropsLoop.executes_iff {b b' : Body} (h : b.DropsLoop b') {m : Machine}
    {out : Outcome} : Executes b m out ↔ Executes b' m out := by
  induction h generalizing m out with
  | here first openIndex closeIndex second openIndex' closeIndex' rest =>
      constructor
      · apply Executes.of_loop id
        intro m out hcell hsecond
        exact (executes_loop_iff_of_zero hcell).1 hsecond
      · apply Executes.of_loop id
        intro m out hcell hrest
        exact (executes_loop_iff_of_zero hcell).2 hrest
  | inside openIndex closeIndex rest _ ih =>
      constructor
      · exact Executes.of_loop ih.1 fun _ hrest => hrest
      · exact Executes.of_loop ih.2 fun _ hrest => hrest
  | afterInstr i _ ih =>
      constructor
      · exact Executes.of_instr ih.1
      · exact Executes.of_instr ih.2
  | afterLoop inner openIndex closeIndex _ ih =>
      constructor
      · exact Executes.of_loop id fun _ hrest => ih.1 hrest
      · exact Executes.of_loop id fun _ hrest => ih.2 hrest

/-! ## Programs that come to the same -/

/-- Two programs come to the same on a machine: they end in the same way, with the same tape,
streams and counters, or neither of them ends. -/
structure Machine.Alike (m : Machine) (p q : Program) : Prop where
  ends : ∀ r, m.Ends p r ↔ m.Ends q r
  endless : (∀ fuel, (m.run .idle () fuel p).ending = .outOfFuel) ↔
    ∀ fuel, (m.run .idle () fuel q).ending = .outOfFuel

/-- Programs come to the same if the rules say so. -/
theorem Machine.alike_of_executes_iff {m : Machine} {p q : Program}
    (h : ∀ out, Executes p.body m out ↔ Executes q.body m out) : m.Alike p q := by
  have hends : ∀ r, m.Ends p r ↔ m.Ends q r := by
    intro r
    rw [ends_iff_executes, ends_iff_executes]
    simp only [h]
  refine ⟨hends, ?_⟩
  -- a run that never ends is one without an end
  apply not_iff_not.1
  calc ¬ (∀ fuel, (m.run .idle () fuel p).ending = .outOfFuel)
    _ ↔ ∃ r, m.Ends p r := Execution.not_endless_iff
    _ ↔ ∃ r, m.Ends q r := exists_congr hends
    _ ↔ ¬ ∀ fuel, (m.run .idle () fuel q).ending = .outOfFuel := Execution.not_endless_iff.symm

/-- **Loops leave a zero cell, so a loop right behind a loop is dead.** Whatever is running and
whoever watches, a move that goes on past a loop finds a zero cell, and a loop that is done leaves
one after all its passes. Therefore a program comes to the same on every machine without a loop that
stands right behind another one, at any place of its tree; and without a loop at its very beginning
it comes to the same on every machine with a blank tape. -/
theorem loop_behind_loop_is_dead :
    (∀ (σ : Type) (watcher : Watcher σ) (e e' : Execution σ),
      Execution.Moves watcher e e' → PastLoop e.frames e'.frames → e'.machine.tape.cell = 0) ∧
    (∀ (inner : Body) (openIndex closeIndex : Int) (m m' : Machine),
      Executes (.loop inner openIndex closeIndex .nil) m (.done m') → m'.tape.cell = 0) ∧
    (∀ p q : Program, p.body.DropsLoop q.body → ∀ m : Machine, m.Alike p q) ∧
    ∀ (p q : Program) (inner : Body) (openIndex closeIndex : Int),
      p.body = .loop inner openIndex closeIndex q.body →
        ∀ (m : Machine) (config : TapeConfig), m.tape = .blank config → m.Alike p q := by
  refine ⟨?_, ?_, ?_, ?_⟩
  · intro σ watcher e e' hmoves hpast
    exact Execution.cell_eq_zero_of_pastLoop hmoves hpast
  · intro inner openIndex closeIndex m m' hdone
    exact hdone.cell_eq_zero
  · intro p q hdrops m
    apply Machine.alike_of_executes_iff
    intro out
    exact hdrops.executes_iff
  · intro p q inner openIndex closeIndex hbody m config hblank
    apply Machine.alike_of_executes_iff
    intro out
    have hcell : m.tape.cell = 0 := by
      rw [hblank]
      exact Tape.get_blank config 0
    rw [hbody]
    exact executes_loop_iff_of_zero hcell

/-- A loop at the beginning is skipped, and so is a loop right behind the one that clears a cell,
inside of another one. -/
theorem loops_of_countdown_are_dead :
    let twice : Body :=
      .loop (.instr ⟨.decrement, 5, 5⟩ .nil) 4 6 (.loop (.instr ⟨.output, 8, 8⟩ .nil) 7 9 .nil)
    let once : Body := .loop (.instr ⟨.decrement, 5, 5⟩ .nil) 4 6 .nil
    let rest : Body := .instr ⟨.input, 2, 2⟩ (.loop twice 3 10 .nil)
    let p : Program := { body := .loop .nil 0 1 rest }
    let q : Program := { body := .loop .nil 0 1 (.instr ⟨.input, 2, 2⟩ (.loop once 3 10 .nil)) }
    let r : Program := { body := .instr ⟨.input, 2, 2⟩ (.loop once 3 10 .nil) }
    let m := Machine.start {} [3] true
    let e : Execution Unit := ⟨[⟨p.body, none⟩], m, ()⟩
    let e' : Execution Unit := ⟨[⟨rest, none⟩], m, ()⟩
    Execution.Moves .idle e e' ∧ e'.machine.tape.cell = 0 ∧ p.body.DropsLoop q.body ∧
      m.Alike p q ∧ m.Alike q r := by
  intro twice once rest p q r m e e'
  obtain ⟨hzero, -, hbehind, hfirst⟩ := loop_behind_loop_is_dead
  have hmoves : Execution.Moves .idle e e' := rfl
  have hdrops : p.body.DropsLoop q.body :=
    .afterLoop _ _ _ (.afterInstr _ (.inside _ _ _ (.here _ _ _ _ _ _ _)))
  exact ⟨hmoves, hzero Unit .idle e e' hmoves (.skipped _ _ _ _ _ _), hdrops, hbehind p q hdrops m,
    hfirst q r .nil 0 1 rfl m {} rfl⟩

end TapeLang
