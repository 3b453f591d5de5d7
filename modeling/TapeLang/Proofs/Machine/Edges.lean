import Mathlib.Tactic.SplitIfs
import TapeLang.Machine

/-!
# The edges of a tape

A bounded tape refuses a move past one of its two ends and a change past one of the two ends of a
cell's range. `Machine.edge?` names the edge that a command would go past. A command that is no
delimiter is refused exactly if the tape is bounded and there is such an edge
(`Machine.obstacle?_eq`).

Under both policies the pointer stays on the tape and nothing is ever left behind its end
(`Machine.fits_perform`).
-/

set_option autoImplicit false

namespace TapeLang

/-! ## Moves by one cell -/

section One

variable {t : Tape} {index : Int}

theorem Tape.pointer_shift_one (hlt : t.pointer < t.size) (h : t.moveFault? 1 index = none) :
    (t.shift 1).pointer = if t.pointer + 1 = t.size then 0 else t.pointer + 1 := by
  have hcast := cast_pointer_shift h
  split
  · rename_i heq
    have hself : (t.pointer : Int) + 1 = t.size := by omega
    rw [hself, Int.emod_self] at hcast
    omega
  · rw [Int.emod_eq_of_lt (by omega) (by omega)] at hcast
    omega

theorem Tape.pointer_shift_neg_one (hlt : t.pointer < t.size)
    (h : t.moveFault? (-1) index = none) :
    (t.shift (-1)).pointer = if t.pointer = 0 then t.size - 1 else t.pointer - 1 := by
  have hcast := cast_pointer_shift h
  split
  · rename_i hzero
    have hwrap : (t.pointer : Int) + -1 = (t.size - 1) + t.size * -1 := by omega
    rw [hwrap, Int.add_mul_emod_self_left, Int.emod_eq_of_lt (by omega) (by omega)] at hcast
    omega
  · rw [Int.emod_eq_of_lt (by omega) (by omega)] at hcast
    omega

end One

/-- A tape that wraps around makes every move. -/
theorem Tape.move_of_wraps (t : Tape) (delta index : Int) (hw : t.config.wraps = true) :
    t.move delta index = .ok (t.shift delta) :=
  move_of_moveFault? (t.moveFault?_of_wraps delta index hw)

/-! ## What a bounded tape refuses -/

namespace Machine

/-- The edge that a command would go past, if the tape were bounded. -/
def edge? (m : Machine) : Command → Option Edge
  | .moveLeft => if m.tape.pointer = 0 then some .pointerUnderflow else none
  | .moveRight => if m.tape.size ≤ m.tape.pointer + 1 then some .pointerOverflow else none
  | .increment => if m.tape.cell = 255 then some .cellOverflow else none
  | .decrement => if m.tape.cell = 0 then some .cellUnderflow else none
  | .output | .input | .loopOpen | .loopClose => none

/-- The obstacle of a command that is no delimiter is an edge of a bounded tape. -/
theorem obstacle?_eq (m : Machine) {i : Instruction} (hi : i.command.isDelimiter = false)
    (hpointer : m.tape.pointer < m.tape.size) :
    m.obstacle? i =
      if m.tape.config.wraps then none
      else (m.edge? i.command).map fun e => .fault (.edge e i.index m.tape.pointer) := by
  obtain ⟨command, index, offset⟩ := i
  cases hw : m.tape.config.wraps with
  | true =>
      cases command with
      | loopOpen | loopClose => cases hi
      | output | input => rfl
      | moveLeft | moveRight => exact Option.map_eq_none_iff.2 (Tape.moveFault?_of_wraps _ _ _ hw)
      | increment | decrement => exact Option.map_eq_none_iff.2 (Tape.addFault?_of_wraps _ _ _ hw)
  | false =>
      have hcell := m.tape.cell.toNat_lt
      have hzero : m.tape.cell = 0 ↔ m.tape.cell.toNat = 0 := by
        rw [← UInt8.toNat_inj]
        rfl
      have hlast : m.tape.cell = 255 ↔ m.tape.cell.toNat = 255 := by
        rw [← UInt8.toNat_inj]
        rfl
      cases command with
      | loopOpen | loopClose => cases hi
      | output | input => rfl
      | moveLeft =>
          simp only [obstacle?, Tape.moveFault?, hw, edge?]
          split_ifs <;> first | rfl | omega
      | moveRight =>
          simp only [obstacle?, Tape.moveFault?, hw, edge?]
          split_ifs <;> first | rfl | omega
      | increment =>
          simp only [obstacle?, Tape.addFault?, hw, edge?, hlast]
          split_ifs <;> first | rfl | omega
      | decrement =>
          simp only [obstacle?, Tape.addFault?, hw, edge?, hzero]
          split_ifs <;> first | rfl | omega

/-- A delimiter is refused as what it is. -/
theorem obstacle?_of_isDelimiter (m : Machine) {i : Instruction}
    (hi : i.command.isDelimiter = true) : m.obstacle? i = some (.delimiter i) := by
  obtain ⟨command, index, offset⟩ := i
  cases command with
  | loopOpen | loopClose => rfl
  | moveLeft | moveRight | increment | decrement | output | input => cases hi

/-- Only a delimiter is refused as a delimiter. -/
theorem obstacle?_eq_delimiter {m : Machine} {i j : Instruction}
    (h : m.obstacle? i = some (.delimiter j)) : i.command.isDelimiter = true ∧ j = i := by
  obtain ⟨command, index, offset⟩ := i
  cases command with
  | moveLeft | moveRight | increment | decrement =>
      obtain ⟨f, -, hf⟩ := Option.map_eq_some_iff.1 h
      cases hf
  | output | input => cases h
  | loopOpen | loopClose =>
      cases h
      exact ⟨rfl, rfl⟩

/-- An instruction that a bounded tape accepts is at no edge. -/
theorem edge?_eq_none_of_obstacle? {m : Machine} {i : Instruction}
    (hpointer : m.tape.pointer < m.tape.size) (hw : m.tape.config.wraps = false)
    (h : m.obstacle? i = none) : i.command.isDelimiter = false ∧ m.edge? i.command = none := by
  cases hi : i.command.isDelimiter with
  | true =>
      rw [m.obstacle?_of_isDelimiter hi] at h
      cases h
  | false =>
      rw [m.obstacle?_eq hi hpointer, hw] at h
      exact ⟨rfl, Option.map_eq_none_iff.1 h⟩

/-- Apart from delimiters, only a bounded tape refuses anything, and only at an edge. -/
theorem exists_edge_of_obstacle? {m : Machine} {i : Instruction} {o : Obstacle}
    (hi : i.command.isDelimiter = false) (hpointer : m.tape.pointer < m.tape.size)
    (h : m.obstacle? i = some o) :
    m.tape.config.wraps = false ∧
      ∃ e, m.edge? i.command = some e ∧ o = .fault (.edge e i.index m.tape.pointer) := by
  rw [m.obstacle?_eq hi hpointer] at h
  cases hw : m.tape.config.wraps with
  | true =>
      rw [hw] at h
      cases h
  | false =>
      rw [hw] at h
      obtain ⟨e, he, ho⟩ := Option.map_eq_some_iff.1 h
      exact ⟨rfl, e, he, ho.symm⟩

/-- A fault comes from a bounded tape, and names the edge that the instruction is at. -/
theorem edge?_eq_some_of_obstacle? {m : Machine} {i : Instruction} {f : Fault}
    (hpointer : m.tape.pointer < m.tape.size) (h : m.obstacle? i = some (.fault f)) :
    i.command.isDelimiter = false ∧ m.tape.config.wraps = false ∧
      ∃ e, m.edge? i.command = some e ∧ f = .edge e i.index m.tape.pointer := by
  cases hi : i.command.isDelimiter with
  | true =>
      rw [m.obstacle?_of_isDelimiter hi] at h
      cases h
  | false =>
      obtain ⟨hw, e, he, ho⟩ := exists_edge_of_obstacle? hi hpointer h
      exact ⟨rfl, hw, e, he, Obstacle.fault.inj ho⟩

end Machine

/-! ## What no operation changes -/

/-- A tape of a certain configuration, with its pointer on it and nothing written past its end. -/
structure Tape.Fits (t : Tape) (c : TapeConfig) : Prop where
  config_eq : t.config = c
  pointer_lt : t.pointer < c.length.cells
  vacant : ∀ position, c.length.cells ≤ position → t.get position = 0

namespace Tape.Fits

variable {t : Tape} {c : TapeConfig}

theorem blank (c : TapeConfig) : (Tape.blank c).Fits c :=
  ⟨rfl, c.one_le, fun position _ => get_blank c position⟩

theorem size_eq (h : t.Fits c) : t.size = c.length.cells := by
  rw [size, h.config_eq]

theorem pointer_lt_size (h : t.Fits c) : t.pointer < t.size := by
  rw [h.size_eq]
  exact h.pointer_lt

theorem put (h : t.Fits c) (v : UInt8) : (t.put v).Fits c := by
  refine ⟨h.config_eq, h.pointer_lt, ?_⟩
  intro position hposition
  have hlt := h.pointer_lt
  rw [get_put, if_neg (by omega), h.vacant position hposition]

theorem shift (h : t.Fits c) {delta index : Int} (hfault : t.moveFault? delta index = none) :
    (t.shift delta).Fits c := by
  refine ⟨h.config_eq, ?_, h.vacant⟩
  have hlt := pointer_shift_lt hfault
  rwa [h.size_eq] at hlt

end Tape.Fits

/-- Executing an instruction that is not refused keeps the tape in shape. -/
theorem Machine.fits_perform {m : Machine} {c : TapeConfig} (h : m.tape.Fits c) {i : Instruction}
    (ho : m.obstacle? i = none) : (m.perform i).tape.Fits c := by
  obtain ⟨tape, input, output, sink, stats⟩ := m
  obtain ⟨command, index, offset⟩ := i
  cases command with
  | moveLeft | moveRight => exact Tape.Fits.shift h (Option.map_eq_none_iff.1 ho)
  | increment | decrement => exact Tape.Fits.put h _
  | output | loopOpen | loopClose => exact h
  | input =>
      cases input with
      | nil => exact Tape.Fits.put h 0
      | cons byte input => exact Tape.Fits.put h byte

end TapeLang
