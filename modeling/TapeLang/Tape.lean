import Std.Data.TreeMap
import TapeLang.Fault
import TapeLang.Tape.Config

/-!
# Tapes

A tape is a row of byte cells with one pointer. Only the cells that were written are kept and all
others are zero, so a long tape costs no more than a short one. `Tape.get` is the view of a tape:
the value of every cell.

A tape that wraps around moves its pointer modulo its length and adds to a cell modulo 256. A
bounded tape refuses what would leave the range (`moveFault?`, `addFault?`) and assigns the sum as
it stands otherwise. What it accepts is therefore what a tape that wraps around would do
(`cast_pointer_shift`, `cast_cell_bump`).
-/

set_option autoImplicit false

namespace TapeLang

/-- A tape. -/
structure Tape where
  config : TapeConfig
  /-- The cells that were written. -/
  written : Std.TreeMap Nat UInt8 := {}
  pointer : Nat := 0
  deriving Repr

namespace Tape

/-- A tape whose cells are all zero. -/
def blank (config : TapeConfig) : Tape where
  config

/-- The number of cells. -/
def size (t : Tape) : Nat :=
  t.config.length.cells

/-- The value of the cell at a position. -/
def get (t : Tape) (position : Nat) : UInt8 :=
  t.written.getD position 0

/-- The value of the cell under the pointer. -/
def cell (t : Tape) : UInt8 :=
  t.get t.pointer

/-- The tape with another value in the cell under the pointer. -/
def put : Tape → UInt8 → Tape
  | ⟨config, written, pointer⟩, v => ⟨config, written.insert pointer v, pointer⟩

/-- The tape with the low byte of a value in the cell under the pointer. -/
def write (t : Tape) (value : Int) : Tape :=
  t.put (UInt8.ofInt value)

/-! ## Moving and adding -/

/-- The fault of a move, if it is refused. -/
def moveFault? (t : Tape) (delta index : Int) : Option Fault :=
  let target := t.pointer + delta
  if t.config.wraps then none
  else if target < 0 then some (.edge .pointerUnderflow index t.pointer)
  else if t.size ≤ target then some (.edge .pointerOverflow index t.pointer)
  else none

/-- The tape with its pointer moved, if that is not refused. -/
def shift : Tape → Int → Tape
  | ⟨config, written, pointer⟩, delta =>
      let target := pointer + delta
      ⟨config, written,
        if config.wraps then (target % config.length.cells).toNat else target.toNat⟩

/-- The fault of an addition, if it is refused. -/
def addFault? (t : Tape) (delta index : Int) : Option Fault :=
  let value := (t.cell.toNat : Int) + delta
  if t.config.wraps then none
  else if value < 0 then some (.edge .cellUnderflow index t.pointer)
  else if 255 < value then some (.edge .cellOverflow index t.pointer)
  else none

/-- The tape with a number added to the cell under the pointer, if that is not refused. -/
def bump (t : Tape) (delta : Int) : Tape :=
  let value := (t.cell.toNat : Int) + delta
  t.put (if t.config.wraps then UInt8.ofInt value else UInt8.ofNat value.toNat)

/-- Move the pointer, or refuse. -/
def move (t : Tape) (delta index : Int) : Except Fault Tape :=
  match t.moveFault? delta index with
  | some f => .error f
  | none => .ok (t.shift delta)

/-- Add to the cell under the pointer, or refuse. -/
def add (t : Tape) (delta index : Int) : Except Fault Tape :=
  match t.addFault? delta index with
  | some f => .error f
  | none => .ok (t.bump delta)

/-! ## What operations keep -/

theorem size_pos (t : Tape) : 0 < t.size :=
  t.config.one_le

@[simp] theorem get_blank (config : TapeConfig) (position : Nat) :
    (blank config).get position = 0 := by
  simp [blank, get]

@[simp] theorem size_put (t : Tape) (v : UInt8) : (t.put v).size = t.size := rfl

@[simp] theorem size_shift (t : Tape) (delta : Int) : (t.shift delta).size = t.size := rfl

@[simp] theorem get_shift (t : Tape) (delta : Int) (position : Nat) :
    (t.shift delta).get position = t.get position := rfl

/-- A write changes the cell under the pointer and no other. -/
theorem get_put (t : Tape) (v : UInt8) (position : Nat) :
    (t.put v).get position = if t.pointer = position then v else t.get position := by
  simp [put, get, Std.TreeMap.getD_insert]

/-- The cell under the pointer holds what was put there. -/
@[simp] theorem cell_put (t : Tape) (v : UInt8) : (t.put v).cell = v := by
  show (t.put v).get t.pointer = v
  rw [get_put, if_pos rfl]

/-! ## What is accepted -/

/-- A tape that wraps around accepts every move. -/
theorem moveFault?_of_wraps (t : Tape) (delta index : Int) (hw : t.config.wraps = true) :
    t.moveFault? delta index = none := by
  simp [moveFault?, hw]

/-- A tape that wraps around accepts every addition. -/
theorem addFault?_of_wraps (t : Tape) (delta index : Int) (hw : t.config.wraps = true) :
    t.addFault? delta index = none := by
  simp [addFault?, hw]

/-- What is checked at both ends is accepted if it is past neither of them. -/
theorem ends_eq_none_iff {low high : Prop} [Decidable low] [Decidable high] {f g : Fault} :
    (if low then some f else if high then some g else none) = none ↔ ¬low ∧ ¬high := by
  by_cases hlow : low
  · simp [hlow]
  · by_cases hhigh : high <;> simp [hlow, hhigh]

/-- A bounded tape accepts the moves that end on it. -/
theorem moveFault?_eq_none_iff (t : Tape) (delta index : Int) (hw : t.config.wraps = false) :
    t.moveFault? delta index = none ↔ 0 ≤ t.pointer + delta ∧ t.pointer + delta < t.size := by
  rw [moveFault?, hw, if_neg Bool.false_ne_true, ends_eq_none_iff, Int.not_lt, Int.not_le]

/-- A bounded tape accepts the additions that stay in the range of a cell. -/
theorem addFault?_eq_none_iff (t : Tape) (delta index : Int) (hw : t.config.wraps = false) :
    t.addFault? delta index = none ↔
      0 ≤ (t.cell.toNat : Int) + delta ∧ (t.cell.toNat : Int) + delta ≤ 255 := by
  rw [addFault?, hw, if_neg Bool.false_ne_true, ends_eq_none_iff, Int.not_lt, Int.not_lt]

section Accepted

variable {t : Tape} {delta index : Int}

theorem move_of_moveFault? (h : t.moveFault? delta index = none) :
    t.move delta index = .ok (t.shift delta) := by
  rw [move, h]

theorem add_of_addFault? (h : t.addFault? delta index = none) :
    t.add delta index = .ok (t.bump delta) := by
  rw [add, h]

theorem pointer_shift_of_wraps (hw : t.config.wraps = true) (delta : Int) :
    (t.shift delta).pointer = ((t.pointer + delta) % t.size).toNat :=
  if_pos hw

/-- A bounded tape moves its pointer by just as much as it is told to. -/
theorem pointer_shift_of_moveFault? (hw : t.config.wraps = false)
    (h : t.moveFault? delta index = none) :
    ((t.shift delta).pointer : Int) = t.pointer + delta := by
  obtain ⟨hlow, -⟩ := (t.moveFault?_eq_none_iff delta index hw).1 h
  have hpointer : (t.shift delta).pointer = (t.pointer + delta).toNat :=
    if_neg (ne_true_of_eq_false hw)
  rw [hpointer, Int.toNat_of_nonneg hlow]

/-- Under both policies an accepted move is a move around the ends. -/
theorem cast_pointer_shift (h : t.moveFault? delta index = none) :
    ((t.shift delta).pointer : Int) = (t.pointer + delta) % t.size := by
  cases hw : t.config.wraps with
  | false =>
      obtain ⟨hlow, hhigh⟩ := (t.moveFault?_eq_none_iff delta index hw).1 h
      rw [pointer_shift_of_moveFault? hw h, Int.emod_eq_of_lt hlow hhigh]
  | true =>
      have hpos : (t.size : Int) ≠ 0 := Int.ofNat_ne_zero.2 (Nat.ne_of_gt t.size_pos)
      rw [pointer_shift_of_wraps hw, Int.toNat_of_nonneg (Int.emod_nonneg _ hpos)]

/-- An accepted move keeps the pointer on the tape. -/
theorem pointer_shift_lt (h : t.moveFault? delta index = none) :
    (t.shift delta).pointer < t.size := by
  have hlt := Int.emod_lt_of_pos (t.pointer + delta) (Int.natCast_pos.2 t.size_pos)
  rw [← cast_pointer_shift h] at hlt
  exact Int.ofNat_lt.1 hlt

/-- An addition writes the cell under the pointer and nothing else. -/
theorem bump_eq_put (t : Tape) (delta : Int) : t.bump delta = t.put (t.bump delta).cell := by
  rw [bump, cell_put]

/-- A bounded tape adds to its cell just as much as it is told to. -/
theorem cell_bump_of_addFault? (hw : t.config.wraps = false)
    (h : t.addFault? delta index = none) :
    ((t.bump delta).cell.toNat : Int) = t.cell.toNat + delta := by
  obtain ⟨hlow, hhigh⟩ := (t.addFault?_eq_none_iff delta index hw).1 h
  have hbyte : ((t.cell.toNat : Int) + delta).toNat < 256 := by omega
  rw [bump, cell_put, hw, if_neg Bool.false_ne_true, UInt8.toNat_ofNat_of_lt' hbyte]
  exact Int.toNat_of_nonneg hlow

/-- Under both policies an accepted addition is an addition modulo 256. -/
theorem cast_cell_bump (h : t.addFault? delta index = none) :
    ((t.bump delta).cell.toNat : Int) = (t.cell.toNat + delta) % 256 := by
  cases hw : t.config.wraps with
  | false =>
      obtain ⟨hlow, hhigh⟩ := (t.addFault?_eq_none_iff delta index hw).1 h
      rw [cell_bump_of_addFault? hw h, Int.emod_eq_of_lt hlow (by omega)]
  | true =>
      rw [bump, cell_put, hw, if_pos rfl]
      show (((((t.cell.toNat : Int) + delta) % 256).toNat % 256 : Nat) : Int) = _
      omega

end Accepted

/-! ## Reading parts of a tape -/

/-- The place between cells that a bound names: negative bounds count from the end, and bounds
past either end name that end. -/
def bound (size : Nat) (i : Int) : Nat :=
  if i < 0 then (size + i).toNat else min i.toNat size

/-- The cells from `start` up to `stop`; a missing bound is the end on its side. -/
def snapshot (t : Tape) (start stop : Option Int) : List UInt8 :=
  let low := (start.map (bound t.size)).getD 0
  let high := (stop.map (bound t.size)).getD t.size
  (List.range' low (high - low)).map t.get

/-- Every cell that is not zero, with its position, in ascending order. -/
def nonzero (t : Tape) : List (Nat × UInt8) :=
  t.written.toList.filter fun (_, v) => v != 0

end Tape

end TapeLang
