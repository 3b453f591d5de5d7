import Mathlib.Data.List.GetD
import TapeLang.Machine
import TapeLang.Proofs.Native.Loaded

/-!
# Agreement of processor and machine

A processor agrees with a machine if the memory from the address of the tape on holds the cells,
`r12` holds the pointer, the streams are the same and the data in front of the tape is as it was
assembled. Agreement survives a store to the cell under the pointer (`Agrees.store`) and whatever
leaves these registers, the memory and the streams alone (`Agrees.of_eq`).
-/

set_option autoImplicit false

namespace TapeLang.Native

open Assembly

/-! ## Addresses -/

theorem toNat_address {a : Nat} (h : a < 2 ^ 64) : (BitVec.ofNat 64 a).toNat = a := by
  rw [BitVec.toNat_ofNat, Nat.mod_eq_of_lt h]

theorem address_inj {a b : Nat} (ha : a < 2 ^ 64) (hb : b < 2 ^ 64)
    (h : BitVec.ofNat 64 a = BitVec.ofNat 64 b) : a = b := by
  have hnat := congrArg BitVec.toNat h
  rwa [toNat_address ha, toNat_address hb] at hnat

theorem address_add (a b : Nat) :
    BitVec.ofNat 64 a + BitVec.ofNat 64 b = BitVec.ofNat 64 (a + b) :=
  (BitVec.ofNat_add a b).symm

namespace Image.Holds

variable {image : Image} {a : Nat} {bytes : List UInt8}

theorem origin_le (h : image.Holds a bytes) : image.origin ≤ a := by
  obtain ⟨front, back, -, rfl⟩ := h
  omega

theorem end_le (h : image.Holds a bytes) :
    a + bytes.length ≤ image.origin + image.data.length := by
  obtain ⟨front, back, hdata, rfl⟩ := h
  rw [hdata, List.length_append, List.length_append]
  omega

theorem mapped (h : image.Holds a bytes) (hfits : image.origin + image.data.length ≤ 2 ^ 64)
    {i : Nat} (hi : i < bytes.length) : image.mapped (BitVec.ofNat 64 (a + i)) = true := by
  have hlow := h.origin_le
  have hhigh := h.end_le
  rw [Image.mapped, toNat_address (by omega), decide_eq_true_eq]
  omega

theorem getD_data (h : image.Holds a bytes) {i : Nat} (hi : i < bytes.length) :
    image.data.getD (a + i - image.origin) 0 = bytes.getD i 0 := by
  obtain ⟨front, back, hdata, rfl⟩ := h
  have hplace : image.origin + front.length + i - image.origin = front.length + i := by omega
  rw [hdata, hplace, List.getD_append_right _ _ _ _ (Nat.le_add_right _ _), Nat.add_sub_cancel_left,
    List.getD_append _ _ _ _ hi]

/-- At the start the memory holds the data. -/
theorem memory (h : image.Holds a bytes) (hfits : image.origin + image.data.length ≤ 2 ^ 64)
    (platform : Platform) {i : Nat} (hi : i < bytes.length) :
    image.memory platform (BitVec.ofNat 64 (a + i)) = bytes.getD i 0 := by
  have hhigh := h.end_le
  rw [Image.memory, if_pos (h.mapped hfits hi), toNat_address (by omega), h.getD_data hi]

end Image.Holds

/-! ## Agreement -/

/-- The processor is in the state of the machine. -/
structure Agrees (image : Image) (config : TapeConfig) (base : Nat) (m : Machine) (c : Cpu) :
    Prop where
  config_eq : m.tape.config = config
  base_eq : c.rbx = BitVec.ofNat 64 base
  pointer_eq : c.r12 = BitVec.ofNat 64 m.tape.pointer
  pointer_lt : m.tape.pointer < config.length.cells
  cells : ∀ i < config.length.cells, c.memory (BitVec.ofNat 64 (base + i)) = m.tape.get i
  kept : ∀ a, image.origin ≤ a → a < base →
    c.memory (BitVec.ofNat 64 a) = image.data.getD (a - image.origin) 0
  input_eq : c.input = m.input
  stdout_eq : c.stdout = m.output.toList
  stderr_eq : c.stderr = []

namespace Agrees

variable {image : Image} {config : TapeConfig} {base : Nat} {m : Machine} {c c' : Cpu}

/-- Agreement sees some registers, the memory and the streams. -/
theorem of_eq (h : Agrees image config base m c) (hrbx : c'.rbx = c.rbx) (hr12 : c'.r12 = c.r12)
    (hmemory : c'.memory = c.memory) (hinput : c'.input = c.input) (hstdout : c'.stdout = c.stdout)
    (hstderr : c'.stderr = c.stderr) : Agrees image config base m c' where
  config_eq := h.config_eq
  base_eq := hrbx.trans h.base_eq
  pointer_eq := hr12.trans h.pointer_eq
  pointer_lt := h.pointer_lt
  cells := by
    rw [hmemory]
    exact h.cells
  kept := by
    rw [hmemory]
    exact h.kept
  input_eq := hinput.trans h.input_eq
  stdout_eq := hstdout.trans h.stdout_eq
  stderr_eq := hstderr.trans h.stderr_eq

theorem pointer_lt_size (h : Agrees image config base m c) : m.tape.pointer < m.tape.size := by
  rw [Tape.size, h.config_eq]
  exact h.pointer_lt

/-- Agreement does not see the counters. -/
theorem onStats (h : Agrees image config base m c) (f : Stats → Stats) :
    Agrees image config base (m.onStats f) c :=
  ⟨h.config_eq, h.base_eq, h.pointer_eq, h.pointer_lt, h.cells, h.kept, h.input_eq, h.stdout_eq,
    h.stderr_eq⟩

/-- The address of the cell under the pointer. -/
theorem address (h : Agrees image config base m c) :
    c.rbx + c.r12 = BitVec.ofNat 64 (base + m.tape.pointer) := by
  rw [h.base_eq, h.pointer_eq, address_add]

theorem memory_cell (h : Agrees image config base m c) :
    c.memory (c.rbx + c.r12) = m.tape.cell := by
  rw [h.address, h.cells _ h.pointer_lt]
  rfl

theorem mapped_cell (hl : Loaded image config base) (h : Agrees image config base m c) :
    image.mapped (c.rbx + c.r12) = true := by
  rw [h.address]
  exact hl.blank.mapped hl.fits (by rw [List.length_replicate]; exact h.pointer_lt)

/-- A store to the cell under the pointer. -/
theorem store (hl : Loaded image config base) (h : Agrees image config base m c) (v : UInt8) :
    Agrees image config base (m.onTape fun t => t.put v) (c.store (c.rbx + c.r12) v) := by
  have hend := hl.blank.end_le
  rw [List.length_replicate] at hend
  have hfits := hl.fits
  have hlt := h.pointer_lt
  refine ⟨h.config_eq, h.base_eq, h.pointer_eq, h.pointer_lt, ?_, ?_, h.input_eq, h.stdout_eq,
    h.stderr_eq⟩
  · intro i hi
    show (if BitVec.ofNat 64 (base + i) = c.rbx + c.r12 then v else _) = (m.tape.put v).get i
    rw [h.address, Tape.get_put, h.cells i hi]
    -- the tape ends before the address space does, so every cell has an address of its own
    by_cases hp : m.tape.pointer = i
    · rw [if_pos hp, if_pos (by rw [hp])]
    · rw [if_neg hp, if_neg]
      intro heq
      have := address_inj (by omega) (by omega) heq
      omega
  · intro a hlow hhigh
    show (if BitVec.ofNat 64 a = c.rbx + c.r12 then v else _) = _
    -- the cell lies behind the data that is kept
    rw [h.address, if_neg, h.kept a hlow hhigh]
    intro heq
    have := address_inj (by omega) (by omega) heq
    omega

/-- A move of the pointer that the tape accepts. -/
theorem shift (h : Agrees image config base m c) {delta index : Int}
    (hfault : m.tape.moveFault? delta index = none)
    (hr12 : c'.r12 = BitVec.ofNat 64 (m.tape.shift delta).pointer) (hrbx : c'.rbx = c.rbx)
    (hmemory : c'.memory = c.memory) (hinput : c'.input = c.input) (hstdout : c'.stdout = c.stdout)
    (hstderr : c'.stderr = c.stderr) :
    Agrees image config base (m.onTape fun t => t.shift delta) c' where
  config_eq := h.config_eq
  base_eq := hrbx.trans h.base_eq
  pointer_eq := hr12
  pointer_lt := by
    have hlt := Tape.pointer_shift_lt hfault
    rw [Tape.size, h.config_eq] at hlt
    exact hlt
  cells := by
    rw [hmemory]
    exact h.cells
  kept := by
    rw [hmemory]
    exact h.kept
  input_eq := hinput.trans h.input_eq
  stdout_eq := hstdout.trans h.stdout_eq
  stderr_eq := hstderr.trans h.stderr_eq

end Agrees

end TapeLang.Native
