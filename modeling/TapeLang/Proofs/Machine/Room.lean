import TapeLang.Proofs.Machine.Edges
import TapeLang.Proofs.Machine.Sightings

/-!
# Room on the tape

What a bounded tape accepts does not depend on its length or policy: every tape that is at least as
long accepts it too, bounded or not, and it does the same there (`Machine.perform_withConfig`). So a
program runs alike on both tapes until the first one refuses an instruction.

Two statements follow. A bounded run is the wrapping run on a tape of the same length until it is
refused something (`bounded_run_is_wrapping_run`). And the length of a bounded tape matters only
through its upper end (`length_matters_only_at_the_end`).
-/

set_option autoImplicit false

namespace TapeLang

/-! ## Another configuration -/

/-- The same tape under another configuration. -/
def Tape.withConfig (c : TapeConfig) (t : Tape) : Tape :=
  { t with config := c }

/-- The same machine with its tape under another configuration. -/
def Machine.withConfig (c : TapeConfig) (m : Machine) : Machine :=
  m.onTape fun t => t.withConfig c

/-- A machine `m'` shows what `m` shows, on a tape with so many further cells, which are zero. -/
structure Machine.GrownBy (zeros : Nat) (m m' : Machine) : Prop where
  cells : m'.tape.snapshot none none = m.tape.snapshot none none ++ List.replicate zeros 0
  pointer : m'.tape.pointer = m.tape.pointer
  input : m'.input = m.input
  output : m'.output = m.output
  sink : m'.sink = m.sink
  stats : m'.stats = m.stats

theorem Tape.snapshot_all (t : Tape) : t.snapshot none none = (List.range t.size).map t.get := by
  simp [snapshot, List.range_eq_range']

/-- The first configuration is bounded, and a tape of the second is at least as long. -/
structure TapeConfig.FitsInto (c c' : TapeConfig) : Prop where
  bounded : c.wraps = false
  le : c.length.cells ≤ c'.length.cells

section Accepted

variable {c c' : TapeConfig} {t : Tape} {delta index : Int}

/-- A move that a bounded tape accepts leads to the same cell of a longer tape, which has no end on
the way to go around. -/
theorem Tape.shift_withConfig (hroom : c.FitsInto c') (h : t.Fits c)
    (hfault : t.moveFault? delta index = none)
    (hfault' : (t.withConfig c').moveFault? delta index = none) :
    (t.withConfig c').shift delta = (t.shift delta).withConfig c' := by
  have hshort := pointer_shift_of_moveFault? (h.config_eq ▸ hroom.bounded) hfault
  have hlong : (((t.withConfig c').shift delta).pointer : Int) =
      (t.pointer + delta) % c'.length.cells := cast_pointer_shift hfault'
  have hlt := (h.shift hfault).pointer_lt
  have hle := hroom.le
  -- the sum is a cell of the shorter tape, so the longer one does not reduce it
  rw [← hshort, Int.emod_eq_of_lt (by omega) (by omega), Int.ofNat_inj] at hlong
  exact congrArg (Tape.mk c' t.written) hlong

/-- An addition that a bounded tape accepts leaves the same value on every tape, as there is nothing
of it that goes around. -/
theorem Tape.bump_withConfig (hroom : c.FitsInto c') (h : t.Fits c)
    (hfault : t.addFault? delta index = none)
    (hfault' : (t.withConfig c').addFault? delta index = none) :
    (t.withConfig c').bump delta = (t.bump delta).withConfig c' := by
  have hshort := cell_bump_of_addFault? (h.config_eq ▸ hroom.bounded) hfault
  have hlong : (((t.withConfig c').bump delta).cell.toNat : Int) = (t.cell.toNat + delta) % 256 :=
    cast_cell_bump hfault'
  have hlt := (t.bump delta).cell.toNat_lt
  rw [← hshort, Int.emod_eq_of_lt (by omega) (by omega), Int.ofNat_inj, UInt8.toNat_inj] at hlong
  calc (t.withConfig c').bump delta
    _ = (t.withConfig c').put (t.bump delta).cell := by rw [bump_eq_put, hlong]
    _ = (t.put (t.bump delta).cell).withConfig c' := rfl
    _ = (t.bump delta).withConfig c' := by rw [← bump_eq_put]

end Accepted

/-! ## What does not depend on the configuration -/

namespace Machine

variable {c c' : TapeConfig} {m : Machine} {i : Instruction}

/-- Nothing is written past the end of a tape, so a longer one shows zeros there. -/
theorem grownBy_withConfig (hroom : c.FitsInto c') (h : m.tape.Fits c) :
    m.GrownBy (c'.length.cells - c.length.cells) (m.withConfig c') := by
  refine ⟨?_, rfl, rfl, rfl, rfl, rfl⟩
  have hle := hroom.le
  have hlength : c'.length.cells = c.length.cells + (c'.length.cells - c.length.cells) := by omega
  have hvacant : ((List.range (c'.length.cells - c.length.cells)).map fun k =>
      m.tape.get (c.length.cells + k)) =
        List.replicate (c'.length.cells - c.length.cells) 0 := by
    rw [List.eq_replicate_iff]
    refine ⟨by simp, ?_⟩
    intro v hv
    obtain ⟨k, -, rfl⟩ := List.mem_map.1 hv
    exact h.vacant _ (Nat.le_add_right _ _)
  rw [Tape.snapshot_all, Tape.snapshot_all, h.size_eq]
  show (List.range c'.length.cells).map m.tape.get = _
  rw [hlength, List.range_add, List.map_append, List.map_map, ← hlength]
  exact congrArg _ hvacant

theorem pointer_lt_withConfig (hroom : c.FitsInto c') (h : m.tape.Fits c) :
    (m.withConfig c').tape.pointer < (m.withConfig c').tape.size :=
  Nat.lt_of_lt_of_le h.pointer_lt hroom.le

/-- A longer tape has no edge where a shorter one has none. -/
theorem edge?_withConfig (hroom : c.FitsInto c') (h : m.tape.Fits c) {command : Command}
    (hedge : m.edge? command = none) : (m.withConfig c').edge? command = none := by
  cases command with
  | moveLeft | increment | decrement | output | input | loopOpen | loopClose => exact hedge
  | moveRight =>
      have hinside : m.tape.pointer + 1 < m.tape.size := by
        simpa [edge?] using hedge
      have hle := hroom.le
      rw [h.size_eq] at hinside
      apply if_neg
      show ¬ c'.length.cells ≤ m.tape.pointer + 1
      omega

/-- What a bounded tape accepts, a tape with more room accepts. -/
theorem accepts_withConfig (hroom : c.FitsInto c') (h : m.tape.Fits c)
    (ho : m.obstacle? i = none) : (m.withConfig c').obstacle? i = none := by
  obtain ⟨hi, hedge⟩ := edge?_eq_none_of_obstacle? h.pointer_lt_size
    (h.config_eq ▸ hroom.bounded) ho
  rw [obstacle?_eq _ hi (pointer_lt_withConfig hroom h), edge?_withConfig hroom h hedge]
  split <;> rfl

/-- **What a bounded tape accepts is the same on a tape with more room.** -/
theorem perform_withConfig (hroom : c.FitsInto c') (h : m.tape.Fits c)
    (ho : m.obstacle? i = none) : (m.withConfig c').perform i = (m.perform i).withConfig c' := by
  have ho' := accepts_withConfig hroom h ho
  obtain ⟨tape, input, output, sink, stats⟩ := m
  obtain ⟨command, index, offset⟩ := i
  cases command with
  | moveLeft | moveRight =>
      have hshift := Tape.shift_withConfig hroom h (Option.map_eq_none_iff.1 ho)
        (Option.map_eq_none_iff.1 ho')
      exact congrArg (Machine.mk · input output sink _) hshift
  | increment | decrement =>
      have hbump := Tape.bump_withConfig hroom h (Option.map_eq_none_iff.1 ho)
        (Option.map_eq_none_iff.1 ho')
      exact congrArg (Machine.mk · input output sink _) hbump
  | output => rfl
  | input => cases input <;> rfl
  | loopOpen | loopClose => cases ho

theorem sighting_withConfig (hroom : c.FitsInto c') (h : m.tape.Fits c)
    (ho : m.obstacle? i = none) : (m.withConfig c').sighting i = m.sighting i := by
  rw [sighting, perform_withConfig hroom h ho]
  rfl

end Machine

/-! ## Runs on a tape with more room -/

/-- Every watcher sees the same on a tape with more room, until the first tape refuses something. -/
theorem simulation_withConfig {σ : Type} (watcher : Watcher σ) {c c' : TapeConfig}
    (hroom : c.FitsInto c') :
    Simulation watcher watcher .same (fun _ => True)
      fun m s m' s' => m.tape.Fits c ∧ m' = m.withConfig c' ∧ s' = s where
  within _ := trivial
  cell_eq := by
    rintro m s m' s' ⟨-, rfl, rfl⟩
    rfl
  iterate := by
    rintro m s m' s' ⟨h, rfl, rfl⟩
    exact ⟨h, rfl, rfl⟩
  accepts := by
    rintro m s m' s' i ⟨h, rfl, rfl⟩ ho _
    exact Machine.accepts_withConfig hroom h ho
  halts_eq := by
    rintro m s m' s' i ⟨h, rfl, rfl⟩ ho _
    show (watcher s' ((m.withConfig c').sighting i)).2 = (watcher s' (m.sighting i)).2
    rw [Machine.sighting_withConfig hroom h ho]
  perform := by
    rintro m s m' s' i ⟨h, rfl, rfl⟩ ho _
    refine ⟨Machine.fits_perform h ho, Machine.perform_withConfig hroom h ho, ?_⟩
    show (watcher s' ((m.withConfig c').sighting i)).1 = (watcher s' (m.sighting i)).1
    rw [Machine.sighting_withConfig hroom h ho]

namespace Machine

variable {σ : Type} {watcher : Watcher σ} {s s' : σ} {c c' : TapeConfig} {m m' : Machine}
  {p : Program} {fuel : Nat} {ending : Ending} {o : Obstacle}

/-- A run that is refused nothing is the same with more room. -/
theorem run_withConfig (hroom : c.FitsInto c') (h : m.tape.Fits c)
    (hr : m.run watcher s fuel p = ⟨ending, m', s'⟩) (hending : ∀ o, ending ≠ .blocked o) :
    m'.tape.Fits c ∧ (m.withConfig c').run watcher s fuel p = ⟨ending, m'.withConfig c', s'⟩ := by
  have hbeside := (simulation_withConfig watcher hroom).run p.body.relabel_same.symm
    ⟨h, rfl, rfl⟩ hr trivial
  generalize (m.withConfig c').run watcher s fuel p = r' at hbeside
  cases hbeside with
  | alike _ _ hR =>
      obtain ⟨hfits, rfl, rfl⟩ := hR
      cases ending with
      | finished | blocked | halted | outOfFuel => exact ⟨hfits, rfl⟩
  | refused => exact absurd rfl (hending _)

/-- A run that is refused an instruction comes to the same instruction with more room. There it is
refused too, or it executes the instruction. -/
theorem run_withConfig_of_blocked (hroom : c.FitsInto c') (h : m.tape.Fits c)
    (hr : m.run watcher s fuel p = ⟨.blocked o, m', s'⟩) :
    m'.tape.Fits c ∧ ∃ i, m'.obstacle? i = some o ∧
      (∀ o', (m'.withConfig c').obstacle? i = some o' →
        (m.withConfig c').run watcher s fuel p = ⟨.blocked o', m'.withConfig c', s'⟩) ∧
      ∀ s₁, (m'.withConfig c').obstacle? i = none →
        watcher.after s' (m'.withConfig c') i = (s₁, true) →
          (m.withConfig c').run watcher s fuel p =
            ⟨.halted, (m'.withConfig c').perform i, s₁⟩ := by
  have hbeside := (simulation_withConfig watcher hroom).run p.body.relabel_same.symm
    ⟨h, rfl, rfl⟩ hr trivial
  generalize (m.withConfig c').run watcher s fuel p = r' at hbeside
  cases hbeside with
  | alike _ hending => exact absurd rfl (hending _)
  | @refused i _ _ _ _ _ _ _ _ _ ho hR hd hcourse =>
      obtain ⟨hfits, rfl, rfl⟩ := hR
      refine ⟨hfits, i, ho, ?_, ?_⟩
      · intro o' ho'
        rw [← hcourse.run_eq, Course.run_eq (.refused hd ho')]
      · intro s₁ ho' hafter
        rw [← hcourse.run_eq, Course.run_eq (.halted hd ho' hafter)]
        rfl

/-- A run that is not at its end is not at its end with more room. -/
theorem outOfFuel_withConfig (hroom : c.FitsInto c') (h : m.tape.Fits c)
    (hout : (m.run watcher s fuel p).ending = .outOfFuel) :
    ((m.withConfig c').run watcher s fuel p).ending = .outOfFuel := by
  cases hr : m.run watcher s fuel p with
  | mk ending m' s' =>
      rw [hr] at hout
      obtain rfl : ending = .outOfFuel := hout
      rw [(run_withConfig hroom h hr (by simp)).2]

/-- What a machine passes, it passes with more room. -/
theorem Passes.withConfig {seen : List Sighting} (hroom : c.FitsInto c') (h : m.tape.Fits c)
    (hpasses : m.Passes p seen m') :
    m'.tape.Fits c ∧ (m.withConfig c').Passes p seen (m'.withConfig c') := by
  obtain ⟨fuel, hr⟩ := hpasses
  obtain ⟨hfits, hr'⟩ := run_withConfig hroom h hr (by simp)
  exact ⟨hfits, fuel, hr'⟩

/-- **The story of a refused run.** The sightings that a fresh machine makes before it is refused an
instruction are made with more room as well, with the same machine after each. The next sighting
there is that of the refused instruction, if it is accepted. -/
theorem sightings_of_blocked (hroom : c.FitsInto c') (h : m.tape.Fits c)
    (hfresh : m.stats.steps = 0) (hr : m.run .idle () fuel p = ⟨.blocked o, m', ()⟩) :
    m'.tape.Fits c ∧ ∃ seen : List Sighting, seen.length = m'.stats.steps ∧
      m.run (.recording none) #[] fuel p = ⟨.blocked o, m', seen.toArray⟩ ∧
      (∀ k, 0 < k → k ≤ seen.length → ∃ m₁, m.Passes p (seen.take k) m₁ ∧
        (m.withConfig c').Passes p (seen.take k) (m₁.withConfig c') ∧
          m₁.GrownBy (c'.length.cells - c.length.cells) (m₁.withConfig c')) ∧
      ∃ i, m'.obstacle? i = some o ∧ ((m'.withConfig c').obstacle? i = none →
        (m.withConfig c').Passes p (seen ++ [(m'.withConfig c').sighting i])
          ((m'.withConfig c').perform i)) := by
  obtain ⟨seen, hrecorded, hsteps⟩ := run_recording hr
  refine ⟨(run_withConfig_of_blocked hroom h hr).1, seen, by omega, hrecorded, ?_, ?_⟩
  · intro k hpos hle
    obtain ⟨m₁, hhalted⟩ := run_recording_take hrecorded hpos hle
    have hpasses : m.Passes p (seen.take k) m₁ := by
      refine ⟨fuel, ?_⟩
      rw [List.length_take, Nat.min_eq_left hle]
      exact hhalted
    obtain ⟨hfits, hpasses'⟩ := hpasses.withConfig hroom h
    exact ⟨m₁, hpasses, hpasses', grownBy_withConfig hroom hfits⟩
  · -- a watcher who waits for one sighting more is still there when the first run is refused
    have hlimited := run_recording_of_lt hrecorded (Nat.lt_succ_self seen.length)
    obtain ⟨-, i, ho, -, hnext⟩ := run_withConfig_of_blocked hroom h hlimited
    refine ⟨i, ho, ?_⟩
    intro haccepted
    refine ⟨fuel, ?_⟩
    rw [List.length_append, List.length_singleton]
    apply hnext _ haccepted
    rw [Watcher.after_recording_some]
    simp

end Machine

/-! ## Bounded and wrapping -/

/-- **A bounded run is the wrapping run until it is refused something.** On fresh machines with tapes
of one length: if the bounded run finishes, the wrapping run finishes and shows the same. If the
bounded run ends in a fault, the wrapping run begins with the same instructions and shows the same
after each of them, and the next instruction it executes is the one that the fault names. If the
bounded run never ends, neither does the wrapping run. -/
theorem bounded_run_is_wrapping_run (p : Program) (c : TapeConfig) (input : List UInt8)
    (hasSink : Bool) :
    let bounded := Machine.start { c with policy := .bounded } input hasSink
    let wrapping := Machine.start { c with policy := .wrapping } input hasSink
    (∀ fuel m, bounded.run .idle () fuel p = ⟨.finished, m, ()⟩ →
      ∃ m', wrapping.run .idle () fuel p = ⟨.finished, m', ()⟩ ∧ m.GrownBy 0 m') ∧
    (∀ fuel f m, bounded.run .idle () fuel p = ⟨.blocked (.fault f), m, ()⟩ →
      ∃ seen : List Sighting, seen.length = m.stats.steps ∧
        bounded.run (.recording none) #[] fuel p = ⟨.blocked (.fault f), m, seen.toArray⟩ ∧
        (∀ k, 0 < k → k ≤ seen.length → ∃ m₁ m₁', bounded.Passes p (seen.take k) m₁ ∧
          wrapping.Passes p (seen.take k) m₁' ∧ m₁.GrownBy 0 m₁') ∧
        ∃ i m₁', m.obstacle? i = some (.fault f) ∧ i.index = f.index ∧
          wrapping.Passes p (seen ++ [⟨i, m₁'.tape.pointer, m₁'.tape.cell⟩]) m₁') ∧
    ((∀ fuel, (bounded.run .idle () fuel p).ending = .outOfFuel) →
      ∀ fuel, (wrapping.run .idle () fuel p).ending = .outOfFuel) := by
  intro bounded wrapping
  have hroom : TapeConfig.FitsInto { c with policy := .bounded } { c with policy := .wrapping } :=
    ⟨rfl, Nat.le_refl _⟩
  have hfits : bounded.tape.Fits { c with policy := .bounded } := .blank _
  have hwrapping : bounded.withConfig { c with policy := .wrapping } = wrapping := rfl
  have hzero : c.length.cells - c.length.cells = 0 := Nat.sub_self _
  refine ⟨?_, ?_, ?_⟩
  · intro fuel m hr
    obtain ⟨hfits', hr'⟩ := Machine.run_withConfig hroom hfits hr (by simp)
    exact ⟨_, hr', hzero ▸ Machine.grownBy_withConfig hroom hfits'⟩
  · intro fuel f m hr
    obtain ⟨hfits', seen, hlength, hrecorded, hpasses, i, ho, hnext⟩ :=
      Machine.sightings_of_blocked hroom hfits rfl hr
    obtain ⟨hi, -, e, -, rfl⟩ := Machine.edge?_eq_some_of_obstacle? hfits'.pointer_lt_size ho
    refine ⟨seen, hlength, hrecorded, ?_, i, _, ho, rfl, hnext ?_⟩
    · intro k hpos hle
      obtain ⟨m₁, hpasses₁, hpasses₁', hgrown⟩ := hpasses k hpos hle
      exact ⟨m₁, _, hpasses₁, hpasses₁', hzero ▸ hgrown⟩
    · -- a wrapping tape refuses nothing but delimiters
      exact Machine.obstacle?_eq _ hi (Machine.pointer_lt_withConfig hroom hfits')
  · intro hendless fuel
    exact Machine.outOfFuel_withConfig hroom hfits (hendless fuel)

/-- A program that fills its tape from the left and goes on at the end, `+[>+]`. -/
def Program.sweep : Program where
  body := .instr ⟨.increment, 0, 0⟩
    (.loop (.instr ⟨.moveRight, 2, 2⟩ (.instr ⟨.increment, 3, 3⟩ .nil)) 1 4 .nil)
  instructionCount := 5

/-- On two cells the bounded sweep is refused its fourth instruction, with which the wrapping sweep
goes around. -/
theorem bounded_sweep_is_wrapping_sweep :
    ∃ m, (Machine.start { length := .number 2 } [] false).run .idle () 9 .sweep =
        ⟨.blocked (.fault (.edge .pointerOverflow 2 1)), m, ()⟩ ∧
      ∃ (seen : List Sighting) (i : Instruction) (m' : Machine), seen.length = 3 ∧ i.index = 2 ∧
        (Machine.start { policy := .wrapping, length := .number 2 } [] false).Passes .sweep
          (seen ++ [⟨i, m'.tape.pointer, m'.tape.cell⟩]) m' := by
  obtain ⟨m, hr, hsteps⟩ :
      ∃ m, (Machine.start { length := .number 2 } [] false).run .idle () 9 .sweep =
        ⟨.blocked (.fault (.edge .pointerOverflow 2 1)), m, ()⟩ ∧ m.stats.steps = 3 := ⟨_, rfl, rfl⟩
  obtain ⟨-, hfault, -⟩ := bounded_run_is_wrapping_run .sweep { length := .number 2 } [] false
  obtain ⟨seen, hlength, -, -, i, m', -, hindex, hpasses⟩ := hfault 9 _ m hr
  exact ⟨m, hr, seen, i, m', hlength.trans hsteps, hindex, hpasses⟩

/-! ## Short and long -/

namespace Machine

variable {c c' : TapeConfig} {m : Machine} {i : Instruction}

/-- Of what a bounded tape refuses, only a move past its upper end depends on its length. -/
theorem refuses_withConfig (hroom : c.FitsInto c') (hbounded : c'.wraps = false)
    (h : m.tape.Fits c) {o : Obstacle} (ho : m.obstacle? i = some o)
    (hother : ∀ index pointer, o ≠ .fault (.edge .pointerOverflow index pointer)) :
    (m.withConfig c').obstacle? i = some o := by
  cases hi : i.command.isDelimiter with
  | true =>
      rw [obstacle?_of_isDelimiter _ hi] at ho ⊢
      exact ho
  | false =>
      have hwraps : (m.withConfig c').tape.config.wraps = false := hbounded
      rw [obstacle?_eq _ hi (pointer_lt_withConfig hroom h), hwraps]
      rw [obstacle?_eq _ hi h.pointer_lt_size, h.config_eq, hroom.bounded] at ho
      obtain ⟨command, index, offset⟩ := i
      cases command with
      | loopOpen | loopClose => cases hi
      | moveLeft | increment | decrement | output | input => exact ho
      | moveRight =>
          obtain ⟨e, he, rfl⟩ := Option.map_eq_some_iff.1 ho
          obtain ⟨-, rfl⟩ : m.tape.size ≤ m.tape.pointer + 1 ∧ Edge.pointerOverflow = e := by
            simpa [edge?] using he
          exact absurd rfl (hother _ _)

/-- A move past the upper end is a move to the right from the last cell. -/
theorem at_end_of_overflow (h : m.tape.Fits c) {index pointer : Int}
    (ho : m.obstacle? i = some (.fault (.edge .pointerOverflow index pointer))) :
    i.command = .moveRight ∧ i.index = index ∧ pointer = m.tape.pointer ∧
      m.tape.pointer + 1 = c.length.cells := by
  obtain ⟨-, -, e, he, hf⟩ := edge?_eq_some_of_obstacle? h.pointer_lt_size ho
  obtain ⟨rfl, rfl, rfl⟩ := Fault.edge.inj hf
  have hlt := h.pointer_lt
  cases hcommand : i.command with
  | moveRight =>
      have hend : m.tape.size ≤ m.tape.pointer + 1 := by
        simpa [edge?, hcommand] using he
      rw [h.size_eq] at hend
      exact ⟨rfl, rfl, rfl, by omega⟩
  | moveLeft | increment | decrement => simp [edge?, hcommand] at he
  | output | input | loopOpen | loopClose => simp [edge?, hcommand] at he

/-- On a longer tape the move goes to the first further cell, which is zero. -/
theorem sighting_past_end (hroom : c.FitsInto c') (h : m.tape.Fits c)
    (hlonger : c.length.cells < c'.length.cells) (hcommand : i.command = .moveRight)
    (hend : m.tape.pointer + 1 = c.length.cells) :
    (m.withConfig c').obstacle? i = none ∧
      (m.withConfig c').sighting i = ⟨i, c.length.cells, 0⟩ := by
  have hpointer := pointer_lt_withConfig hroom h
  obtain ⟨command, index, offset⟩ := i
  obtain rfl : command = .moveRight := hcommand
  have haccepted : (m.withConfig c').obstacle? ⟨.moveRight, index, offset⟩ = none := by
    have hedge : (m.withConfig c').edge? .moveRight = none := by
      apply if_neg
      show ¬ c'.length.cells ≤ m.tape.pointer + 1
      omega
    rw [obstacle?_eq _ rfl hpointer, hedge]
    split <;> rfl
  have hmoved : ((m.withConfig c').tape.shift 1).pointer = c.length.cells := by
    rw [Tape.pointer_shift_one hpointer (Option.map_eq_none_iff.1 haccepted), if_neg, ← hend]
    · rfl
    · show ¬ m.tape.pointer + 1 = c'.length.cells
      omega
  have hcell : ((m.withConfig c').tape.shift 1).cell = 0 := by
    rw [Tape.cell, hmoved]
    exact h.vacant _ (Nat.le_refl _)
  refine ⟨haccepted, ?_⟩
  show Sighting.mk _ ((m.withConfig c').tape.shift 1).pointer
    ((m.withConfig c').tape.shift 1).cell = _
  rw [hmoved, hcell]

end Machine

/-- **The length of a bounded tape matters only at its upper end.** On fresh machines with bounded
tapes, the second at least as long as the first: if the first run finishes, or ends in anything but
a move past the upper end, the second run ends in the same way and shows the same, with zeros in the
further cells. If the first run ends in a move past the upper end, it was at its last cell; the
second run begins with the same instructions and shows the same after each of them, and on a longer
tape it then moves on to the first further cell. If the first run never ends, neither does the
second. -/
theorem length_matters_only_at_the_end (p : Program) (c c' : TapeConfig)
    (hle : c.length.cells ≤ c'.length.cells) (input : List UInt8) (hasSink : Bool) :
    let short := Machine.start { c with policy := .bounded } input hasSink
    let long := Machine.start { c' with policy := .bounded } input hasSink
    let further := c'.length.cells - c.length.cells
    (∀ fuel m, short.run .idle () fuel p = ⟨.finished, m, ()⟩ →
      ∃ m', long.run .idle () fuel p = ⟨.finished, m', ()⟩ ∧ m.GrownBy further m') ∧
    (∀ fuel o m, short.run .idle () fuel p = ⟨.blocked o, m, ()⟩ →
      (∀ index pointer, o ≠ .fault (.edge .pointerOverflow index pointer)) →
        ∃ m', long.run .idle () fuel p = ⟨.blocked o, m', ()⟩ ∧ m.GrownBy further m') ∧
    (∀ fuel index pointer m,
      short.run .idle () fuel p = ⟨.blocked (.fault (.edge .pointerOverflow index pointer)), m, ()⟩ →
        pointer = (c.length.cells : Int) - 1 ∧
        ∃ seen : List Sighting, seen.length = m.stats.steps ∧
          short.run (.recording none) #[] fuel p =
            ⟨.blocked (.fault (.edge .pointerOverflow index pointer)), m, seen.toArray⟩ ∧
          (∀ k, 0 < k → k ≤ seen.length → ∃ m₁ m₁', short.Passes p (seen.take k) m₁ ∧
            long.Passes p (seen.take k) m₁' ∧ m₁.GrownBy further m₁') ∧
          (c.length.cells < c'.length.cells → ∃ i m₁', i.command = .moveRight ∧ i.index = index ∧
            long.Passes p (seen ++ [⟨i, c.length.cells, 0⟩]) m₁')) ∧
    ((∀ fuel, (short.run .idle () fuel p).ending = .outOfFuel) →
      ∀ fuel, (long.run .idle () fuel p).ending = .outOfFuel) := by
  intro short long further
  have hroom : TapeConfig.FitsInto { c with policy := .bounded } { c' with policy := .bounded } :=
    ⟨rfl, hle⟩
  have hfits : short.tape.Fits { c with policy := .bounded } := .blank _
  refine ⟨?_, ?_, ?_, ?_⟩
  · intro fuel m hr
    obtain ⟨hfits', hr'⟩ := Machine.run_withConfig hroom hfits hr (by simp)
    exact ⟨_, hr', Machine.grownBy_withConfig hroom hfits'⟩
  · intro fuel o m hr hother
    obtain ⟨hfits', i, ho, hrefused, -⟩ := Machine.run_withConfig_of_blocked hroom hfits hr
    have ho' := Machine.refuses_withConfig hroom rfl hfits' ho hother
    exact ⟨_, hrefused o ho', Machine.grownBy_withConfig hroom hfits'⟩
  · intro fuel index pointer m hr
    obtain ⟨hfits', seen, hlength, hrecorded, hpasses, i, ho, hnext⟩ :=
      Machine.sightings_of_blocked hroom hfits rfl hr
    obtain ⟨hcommand, hindex, rfl, hend⟩ := Machine.at_end_of_overflow hfits' ho
    refine ⟨?_, seen, hlength, hrecorded, ?_, ?_⟩
    · dsimp only at hend
      omega
    · intro k hpos hle
      obtain ⟨m₁, hpasses₁, hpasses₁', hgrown⟩ := hpasses k hpos hle
      exact ⟨m₁, _, hpasses₁, hpasses₁', hgrown⟩
    · intro hlonger
      obtain ⟨haccepted, hsighting⟩ :=
        Machine.sighting_past_end hroom hfits' hlonger hcommand hend
      have hpasses' := hnext haccepted
      rw [hsighting] at hpasses'
      exact ⟨i, _, hcommand, hindex, hpasses'⟩
  · intro hendless fuel
    exact Machine.outOfFuel_withConfig hroom hfits (hendless fuel)

/-- A sweep of two cells that ends at the upper end goes on to the third of three cells. -/
theorem sweep_goes_on_to_further_cell :
    2 ≤ 3 ∧ ∃ m, (Machine.start { length := .number 2 } [] false).run .idle () 9 .sweep =
        ⟨.blocked (.fault (.edge .pointerOverflow 2 1)), m, ()⟩ ∧
      ∃ (seen : List Sighting) (i : Instruction) (m' : Machine), seen.length = 3 ∧ i.index = 2 ∧
        (Machine.start { length := .number 3 } [] false).Passes .sweep (seen ++ [⟨i, 2, 0⟩]) m' := by
  obtain ⟨m, hr, hsteps⟩ :
      ∃ m, (Machine.start { length := .number 2 } [] false).run .idle () 9 .sweep =
        ⟨.blocked (.fault (.edge .pointerOverflow 2 1)), m, ()⟩ ∧ m.stats.steps = 3 := ⟨_, rfl, rfl⟩
  obtain ⟨-, -, hend, -⟩ := length_matters_only_at_the_end .sweep { length := .number 2 }
    { length := .number 3 } (by decide) [] false
  obtain ⟨-, seen, hlength, -, -, hnext⟩ := hend 9 2 1 m hr
  obtain ⟨i, m', -, hindex, hpasses⟩ := hnext (by decide)
  exact ⟨by decide, m, hr, seen, i, m', hlength.trans hsteps, hindex, hpasses⟩

end TapeLang
