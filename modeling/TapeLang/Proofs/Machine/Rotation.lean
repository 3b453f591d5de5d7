import TapeLang.Proofs.Machine.Edges
import TapeLang.Proofs.Machine.Origin

/-!
# Rotating a tape that wraps around

A tape that wraps around is a ring, and its two ends are neighbours like any others. So it makes no
difference where on the ring the cells are counted from. `Tape.RotatedBy` relates a tape to the same
ring with every cell, and the pointer, counted from another place.

Moving the pointer commutes with a rotation, because both are additions modulo the number of cells,
and a rotation takes no two cells to one. Hence every instruction keeps the relation
(`Machine.RotatedBy.perform`), and so does a whole run, although the two runs come to the ends of
their tapes at different times (`wrapping_tape_has_no_seam`).
-/

set_option autoImplicit false

namespace TapeLang

/-! ## Positions on a ring -/

/-- The position `k` cells further on a ring of `n` cells. -/
def around (n : Nat) (k : Int) (position : Nat) : Nat :=
  ((position + k) % n).toNat

section Ring

variable {n : Nat}

theorem cast_around (hn : 0 < n) (k : Int) (position : Nat) :
    (around n k position : Int) = (position + k) % n := by
  apply Int.toNat_of_nonneg
  exact Int.emod_nonneg _ (by omega)

theorem around_lt (hn : 0 < n) (k : Int) (position : Nat) : around n k position < n := by
  have hlt : (position + k) % (n : Int) < n := Int.emod_lt_of_pos _ (by omega)
  have hcast := cast_around hn k position
  omega

/-- Going around twice is going around once, by the sum. -/
theorem around_around (hn : 0 < n) (k l : Int) (position : Nat) :
    around n k (around n l position) = around n (l + k) position := by
  have hsum : (around n k (around n l position) : Int) = around n (l + k) position := by
    rw [cast_around hn, cast_around hn, cast_around hn, Int.emod_add_emod, Int.add_assoc]
  exact Int.ofNat_inj.1 hsum

theorem around_comm (hn : 0 < n) (k l : Int) (position : Nat) :
    around n k (around n l position) = around n l (around n k position) := by
  rw [around_around hn, around_around hn, Int.add_comm]

/-- Different cells come to different places. -/
theorem around_inj {i j : Nat} (hi : i < n) (hj : j < n) (k : Int) :
    around n k i = around n k j ↔ i = j := by
  have hn : 0 < n := by omega
  constructor
  · intro h
    have hmod : ((i : Int) + k) % n = (j + k) % n := by
      rw [← cast_around hn, ← cast_around hn, h]
    rw [Int.emod_add_cancel_right, Int.emod_eq_of_lt (by omega) (by omega),
      Int.emod_eq_of_lt (by omega) (by omega)] at hmod
    omega
  · intro h
    rw [h]

end Ring

/-! ## Rotated tapes -/

namespace Tape

/-- The tape `t'` is the tape `t` with its cells and its pointer moved `k` cells around the ring. -/
structure RotatedBy (k : Int) (t t' : Tape) : Prop where
  config_eq : t'.config = t.config
  pointer_eq : t'.pointer = around t.size k t.pointer
  get_eq : ∀ position < t.size, t'.get (around t.size k position) = t.get position

/-- The tape with its cells and its pointer moved `k` cells around the ring. -/
def rotate (k : Int) (t : Tape) : Tape where
  config := t.config
  written := .ofList ((List.range t.size).map fun position =>
    (around t.size k position, t.get position))
  pointer := around t.size k t.pointer

theorem rotatedBy_rotate (k : Int) (t : Tape) : t.RotatedBy k (t.rotate k) := by
  refine ⟨rfl, rfl, ?_⟩
  intro position hposition
  -- no position occurs twice among the rotated ones, so the entry of each is the one that counts
  have hapart : List.Pairwise (fun a b : Nat × UInt8 => ¬ compare a.1 b.1 = .eq)
      ((List.range t.size).map fun position => (around t.size k position, t.get position)) := by
    rw [List.pairwise_map]
    refine List.Pairwise.imp_of_mem ?_ List.pairwise_lt_range
    intro i j hi hj hlt heq
    rw [Nat.compare_eq_eq, around_inj (List.mem_range.1 hi) (List.mem_range.1 hj)] at heq
    omega
  apply Std.TreeMap.getD_ofList_of_mem (Nat.compare_eq_eq.2 rfl) hapart
  exact List.mem_map.2 ⟨position, List.mem_range.2 hposition, rfl⟩

namespace RotatedBy

variable {k : Int} {t t' : Tape}

theorem size_eq (h : t.RotatedBy k t') : t'.size = t.size := by
  rw [size, h.config_eq]
  rfl

/-- The pointer stands on the same cell of the ring. -/
theorem cell_eq (h : t.RotatedBy k t') (hlt : t.pointer < t.size) : t'.cell = t.cell := by
  rw [cell, h.pointer_eq]
  exact h.get_eq t.pointer hlt

/-- **Moving commutes with rotating**, also around the ends, which are elsewhere on the other
tape. -/
theorem shift (h : t.RotatedBy k t') (hw : t.config.wraps = true) (delta : Int) :
    (t.shift delta).RotatedBy k (t'.shift delta) := by
  refine ⟨h.config_eq, ?_, h.get_eq⟩
  rw [size_shift, pointer_shift_of_wraps hw, pointer_shift_of_wraps (h.config_eq ▸ hw), h.size_eq,
    h.pointer_eq]
  show around t.size delta (around t.size k t.pointer) = _
  exact around_comm t.size_pos delta k t.pointer

/-- Writing commutes with rotating. -/
theorem put (h : t.RotatedBy k t') (hlt : t.pointer < t.size) (v : UInt8) :
    (t.put v).RotatedBy k (t'.put v) := by
  refine ⟨h.config_eq, h.pointer_eq, ?_⟩
  intro position hposition
  show (t'.put v).get (around t.size k position) = (t.put v).get position
  rw [get_put, get_put, h.pointer_eq]
  by_cases hhere : t.pointer = position
  · rw [if_pos hhere, if_pos (by rw [hhere])]
  · rw [if_neg hhere, if_neg (mt (around_inj hlt hposition k).1 hhere)]
    exact h.get_eq position hposition

/-- So does adding, which writes what the cell holds and a number more. -/
theorem bump (h : t.RotatedBy k t') (hlt : t.pointer < t.size) (delta : Int) :
    (t.bump delta).RotatedBy k (t'.bump delta) := by
  rw [Tape.bump, Tape.bump, h.cell_eq hlt, h.config_eq]
  exact h.put hlt _

end RotatedBy

end Tape

/-! ## Runs on rotated tapes -/

namespace Machine

/-- Two machines differ in nothing but a rotation of their tapes, and in where their last runs
finished. -/
structure RotatedBy (k : Int) (m m' : Machine) : Prop where
  tape : m.tape.RotatedBy k m'.tape
  input : m'.input = m.input
  output : m'.output = m.output
  sink : m'.sink = m.sink
  stats : m'.stats = { m.stats with finalPointer := m'.stats.finalPointer }

variable {k : Int} {m m' : Machine} {c : TapeConfig}

theorem rotatedBy_rotate (k : Int) (m : Machine) : m.RotatedBy k (m.onTape (Tape.rotate k)) :=
  ⟨m.tape.rotatedBy_rotate k, rfl, rfl, rfl, rfl⟩

namespace RotatedBy

theorem iterate (h : m.RotatedBy k m') : m.iterate.RotatedBy k m'.iterate := by
  refine ⟨h.tape, h.input, h.output, h.sink, ?_⟩
  show { m'.stats with loopIterations := m'.stats.loopIterations + 1 } = _
  rw [h.stats]
  rfl

/-- **An executed instruction does the same on a rotated tape.** -/
theorem perform (h : m.RotatedBy k m') (hw : m.tape.config.wraps = true)
    (hlt : m.tape.pointer < m.tape.size) (i : Instruction) :
    (m.perform i).RotatedBy k (m'.perform i) := by
  obtain ⟨command, index, offset⟩ := i
  obtain ⟨tape, input, output, sink, stats⟩ := m
  obtain ⟨tape', input', output', sink', stats'⟩ := m'
  obtain ⟨htape, rfl, rfl, rfl, hstats⟩ := h
  dsimp only at hw hlt htape hstats
  generalize stats'.finalPointer = finalPointer at hstats
  subst hstats
  have hcell : tape'.cell = tape.cell := htape.cell_eq hlt
  cases command with
  | moveLeft => exact ⟨htape.shift hw (-1), rfl, rfl, rfl, rfl⟩
  | moveRight => exact ⟨htape.shift hw 1, rfl, rfl, rfl, rfl⟩
  | increment => exact ⟨htape.bump hlt 1, rfl, rfl, rfl, rfl⟩
  | decrement => exact ⟨htape.bump hlt (-1), rfl, rfl, rfl, rfl⟩
  | output =>
      refine ⟨htape, rfl, ?_, ?_, rfl⟩
      · show output'.push tape'.cell = output'.push tape.cell
        rw [hcell]
      · show sink'.map (fun received => received.push tape'.cell) =
          sink'.map fun received => received.push tape.cell
        rw [hcell]
  | input =>
      cases input' with
      | nil => exact ⟨htape.put hlt 0, rfl, rfl, rfl, rfl⟩
      | cons byte input' => exact ⟨htape.put hlt byte, rfl, rfl, rfl, rfl⟩
  | loopOpen | loopClose => exact ⟨htape, rfl, rfl, rfl, rfl⟩

end RotatedBy

/-- A tape that wraps around refuses nothing but delimiters. -/
theorem obstacle?_of_wraps (hw : m.tape.config.wraps = true) {i : Instruction}
    (hi : i.command.isDelimiter = false) (hlt : m.tape.pointer < m.tape.size) :
    m.obstacle? i = none := by
  rw [m.obstacle?_eq hi hlt, if_pos hw]

/-- So does its rotation. -/
theorem RotatedBy.accepts (h : m.RotatedBy k m') (hw : m.tape.config.wraps = true)
    {i : Instruction} (ho : m.obstacle? i = none) :
    m'.obstacle? i = none := by
  have hi : i.command.isDelimiter = false := by
    cases hi : i.command.isDelimiter with
    | false => rfl
    | true =>
        rw [m.obstacle?_of_isDelimiter hi] at ho
        cases ho
  apply obstacle?_of_wraps (h.tape.config_eq ▸ hw) hi
  rw [h.tape.pointer_eq, h.tape.size_eq]
  exact around_lt m.tape.size_pos k m.tape.pointer

end Machine

/-- A program makes the same moves on a tape that wraps around and on its rotations. -/
theorem simulation_rotatedBy (k : Int) {c : TapeConfig} (hw : c.wraps = true) :
    Simulation .idle .idle .same (fun _ => True)
      fun m _ m' _ => m.tape.Fits c ∧ m.RotatedBy k m' where
  within _ := trivial
  cell_eq := by
    rintro m _ m' _ ⟨hfits, h⟩
    exact h.tape.cell_eq hfits.pointer_lt_size
  iterate := by
    rintro m _ m' _ ⟨hfits, h⟩
    exact ⟨hfits, h.iterate⟩
  accepts := by
    rintro m _ m' _ i ⟨hfits, h⟩ ho _
    exact h.accepts (hfits.config_eq ▸ hw) ho
  halts_eq := by
    intro m _ m' _ i _ _ _
    rfl
  perform := by
    rintro m _ m' _ i ⟨hfits, h⟩ ho _
    exact ⟨Machine.fits_perform hfits ho, h.perform (hfits.config_eq ▸ hw) hfits.pointer_lt_size i⟩

namespace Machine

variable {k : Int} {m m' : Machine} {c : TapeConfig} {p : Program}

/-- On a tape that wraps around, a program without delimiters is refused nothing. -/
theorem run_ne_blocked (hw : c.wraps = true) (hp : p.body.DelimiterFree) (hm : m.tape.Fits c)
    (fuel : Nat) (o : Obstacle) : (m.run .idle () fuel p).ending ≠ .blocked o := by
  intro hblocked
  have hkept := (course_of_run (Eq.refl (m.run .idle () fuel p))).invariant_of_all
    (I := fun m' _ => m'.tape.Fits c) (fun hI => hI) ?_ (Program.all_frames hp) hm
  · obtain ⟨m', hfits, -, hrefused⟩ := hkept
    obtain ⟨i, hi, ho⟩ := hrefused o hblocked
    rw [obstacle?_of_wraps (hfits.config_eq ▸ hw) hi hfits.pointer_lt_size] at ho
    cases ho
  · intro m' _ i _ hfits ho
    exact fits_perform hfits ho

/-- **A run and the run on the rotated tape end in the same way**, with tapes that are rotated
alike. A run that finished also notes where its own pointer stands. -/
theorem run_rotatedBy (hw : c.wraps = true) (hp : p.body.DelimiterFree) (hm : m.tape.Fits c)
    (h : m.RotatedBy k m') (fuel : Nat) :
    let r := m.run .idle () fuel p
    let r' := m'.run .idle () fuel p
    r'.ending = r.ending ∧ r.machine.RotatedBy k r'.machine ∧
      (r.ending = .finished →
        r'.machine.stats.finalPointer = around m.tape.size k r.machine.stats.finalPointer) := by
  intro r r'
  have hblocked : ∀ o, r.ending ≠ .blocked o := run_ne_blocked hw hp hm fuel
  have hbeside : Beside .idle .same _ r r' :=
    (simulation_rotatedBy k hw).run p.body.relabel_same.symm ⟨hm, h⟩ rfl trivial
  generalize r = r at hbeside hblocked ⊢
  generalize r' = r' at hbeside ⊢
  cases hbeside with
  | refused => exact absurd rfl (hblocked _)
  | @alike ending m₁ m₁' _ _ _ hR =>
      obtain ⟨hfits, hrotated⟩ := hR
      obtain ⟨htape, hinput, houtput, hsink, hstats⟩ := hrotated
      refine ⟨rfl, ?_, ?_⟩
      · cases ending with
        | finished =>
            refine ⟨htape, hinput, houtput, hsink, ?_⟩
            show { m₁'.stats with finalPointer := m₁'.tape.pointer } = _
            rw [hstats]
            rfl
        | blocked | halted | outOfFuel => exact ⟨htape, hinput, houtput, hsink, hstats⟩
      · rintro rfl
        show m₁'.tape.pointer = around m.tape.size k m₁.tape.pointer
        rw [htape.pointer_eq, hfits.size_eq, hm.size_eq]

end Machine

/-- **A tape that wraps around has no seam.** Take a program without delimiters and a machine with
any cells, pointer and input, whose tape wraps around. Count its cells and its pointer from another
place of the ring, `k` cells away. Then either the program runs forever on both machines, or it
finishes on both, after as many moves, and the machines are again the same but for that rotation:
output, input that is left and counters are equal, the cells are rotated by `k`, and so is the place
where the run finished. -/
theorem wrapping_tape_has_no_seam (config : TapeConfig) (hw : config.policy = .wrapping)
    (p : Program) (hp : p.body.DelimiterFree) (k : Int) (m : Machine)
    (hm : m.tape.Fits config) :
    m.RotatedBy k (m.onTape (Tape.rotate k)) ∧
    ∀ m', m.RotatedBy k m' →
      ((∀ fuel, (m.run .idle () fuel p).ending = .outOfFuel) ∧
        ∀ fuel, (m'.run .idle () fuel p).ending = .outOfFuel) ∨
      ∃ fuel e e', m.run .idle () fuel p = ⟨.finished, e, ()⟩ ∧
        m'.run .idle () fuel p = ⟨.finished, e', ()⟩ ∧ e.RotatedBy k e' ∧
        e'.stats.finalPointer = around config.length.cells k e.stats.finalPointer := by
  refine ⟨m.rotatedBy_rotate k, ?_⟩
  intro m' h
  have hwraps : config.wraps = true := by
    rw [TapeConfig.wraps, hw]
    rfl
  by_cases hendless : ∀ fuel, (m.run .idle () fuel p).ending = .outOfFuel
  · refine .inl ⟨hendless, ?_⟩
    intro fuel
    rw [(Machine.run_rotatedBy hwraps hp hm h fuel).1]
    exact hendless fuel
  · -- a run that ends is refused nothing, and nobody is there to halt it
    obtain ⟨fuel, hending⟩ := Classical.not_forall.1 hendless
    have hfinished : (m.run .idle () fuel p).ending = .finished := by
      have hblocked := Machine.run_ne_blocked hwraps hp hm fuel
      have hhalted := (course_of_run (Eq.refl (m.run .idle () fuel p))).ne_halted fun _ _ _ => rfl
      cases hcase : (m.run .idle () fuel p).ending with
      | finished => rfl
      | blocked o => exact absurd hcase (hblocked o)
      | halted => exact absurd hcase hhalted
      | outOfFuel => exact absurd hcase hending
    obtain ⟨hsame, hrotated, hfinal⟩ := Machine.run_rotatedBy hwraps hp hm h fuel
    rw [hfinished] at hsame
    have hend : m.run .idle () fuel p = ⟨.finished, (m.run .idle () fuel p).machine, ()⟩ := by
      rw [← hfinished]
    have hend' : m'.run .idle () fuel p = ⟨.finished, (m'.run .idle () fuel p).machine, ()⟩ := by
      rw [← hsame]
    refine .inr ⟨fuel, _, _, hend, hend', hrotated, ?_⟩
    rw [hfinal hfinished, hm.size_eq]

/-- A program that goes left and counts a cell down from one, `<+[-.]`. -/
def Program.leftward : Program where
  body := .instr ⟨.moveLeft, 0, 0⟩ (.instr ⟨.increment, 1, 1⟩
    (.loop (.instr ⟨.decrement, 3, 3⟩ (.instr ⟨.output, 4, 4⟩ .nil)) 2 5 .nil))
  instructionCount := 6

/-- From the first of three cells the program goes around to the last; one cell further on it stays
clear of the ends. -/
theorem leftward_from_first_and_second_cell :
    let ring : TapeConfig := { policy := .wrapping, length := .number 3 }
    let first := Machine.start ring [] false
    let second := first.onTape (Tape.rotate 1)
    Program.leftward.body.DelimiterFree ∧ first.tape.Fits ring ∧ second.tape.pointer = 1 ∧
      ∃ fuel e e', first.run .idle () fuel .leftward = ⟨.finished, e, ()⟩ ∧
        second.run .idle () fuel .leftward = ⟨.finished, e', ()⟩ ∧ e.RotatedBy 1 e' ∧
        e'.stats.finalPointer = around 3 1 e.stats.finalPointer := by
  intro ring first second
  have hfree : Program.leftward.body.DelimiterFree := by decide
  have hfits : first.tape.Fits ring := .blank ring
  obtain ⟨hrotated, hruns⟩ := wrapping_tape_has_no_seam ring rfl .leftward hfree 1 first hfits
  refine ⟨hfree, hfits, rfl, ?_⟩
  rcases hruns second hrotated with ⟨hendless, -⟩ | hfinished
  · have hends : (first.run .idle () 20 .leftward).ending = .finished := rfl
    rw [hendless] at hends
    cases hends
  · exact hfinished

end TapeLang
