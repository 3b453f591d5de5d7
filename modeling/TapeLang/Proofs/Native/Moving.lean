import TapeLang.Proofs.Machine.Edges
import TapeLang.Proofs.Native.Agreement
import TapeLang.Proofs.Native.Operations

/-!
# Moving the pointer

A listing moves the pointer in one of three ways: by counting on a bounded tape, with a mask if the
number of cells is a power of two, and with a conditional move otherwise. All three put the pointer
where the tape puts it (`advances_moveRight`, `advances_moveLeft`).

The two ways around the ends have names of their own (`maskedRight`, `selectedRight` and their
counterparts). What they do is said for every number of cells, also for those that the generator
does not use them for.
-/

set_option autoImplicit false

namespace TapeLang.Native

open Assembly

/-! ## Places -/

/-- Where the mask takes the pointer: the sum wraps around at 64 bits, and the mask keeps those bits
that the number of the last cell has. -/
def maskedPlace (cells p : Nat) (delta : Int) : Nat :=
  ((p + delta) % 2 ^ 64).toNat &&& (cells - 1)

/-- Where a tape that wraps around has the pointer. -/
def wrappedPlace (cells p : Nat) (delta : Int) : Nat :=
  ((p + delta) % cells).toNat

/-- **The mask of a power of two is right**, however far the pointer moves. The register goes
around at a multiple of the number of cells. -/
theorem maskedPlace_eq {cells : Nat} (htwo : cells.isPowerOfTwo) (hcells : cells < 2 ^ 64) (p : Nat)
    (delta : Int) : maskedPlace cells p delta = wrappedPlace cells p delta := by
  obtain ⟨k, rfl⟩ := htwo
  -- the remainder at 64 bits is forgotten by the smaller one, whose modulus divides it
  have hk : k ≤ 64 := Nat.le_of_lt ((Nat.pow_lt_pow_iff_right (by decide)).1 hcells)
  have hdvd : ((2 ^ k : Nat) : Int) ∣ 2 ^ 64 := by
    exact_mod_cast Nat.pow_dvd_pow 2 hk
  have hnonneg : 0 ≤ (p + delta) % (2 ^ 64 : Int) := Int.emod_nonneg _ (by decide)
  rw [maskedPlace, wrappedPlace, Nat.and_two_pow_sub_one_eq_mod, ← Int.emod_emod_of_dvd _ hdvd,
    Int.toNat_emod hnonneg (Int.natCast_nonneg _), Int.toNat_natCast]

/-! ## In a register -/

theorem ofNat_maskedPlace (cells p : Nat) (delta : Int) :
    BitVec.ofNat 64 (maskedPlace cells p delta) =
      BitVec.ofInt 64 (p + delta) &&& BitVec.ofNat 64 (cells - 1) := by
  have hsum : BitVec.ofNat 64 ((p + delta) % 2 ^ 64).toNat = BitVec.ofInt 64 (p + delta) := by
    apply BitVec.eq_of_toNat_eq
    rw [BitVec.toNat_ofNat, BitVec.toNat_ofInt]
    apply Nat.mod_eq_of_lt
    omega
  rw [maskedPlace, BitVec.ofNat_and, hsum]

theorem ofNat_maskedPlace_one (cells p : Nat) :
    BitVec.ofNat 64 (maskedPlace cells p 1) =
      (BitVec.ofNat 64 p + 1) &&& BitVec.ofNat 64 (cells - 1) := by
  rw [ofNat_maskedPlace, BitVec.ofInt_add, BitVec.ofInt_natCast]
  rfl

theorem ofNat_maskedPlace_neg_one (cells p : Nat) :
    BitVec.ofNat 64 (maskedPlace cells p (-1)) =
      (BitVec.ofNat 64 p - 1) &&& BitVec.ofNat 64 (cells - 1) := by
  rw [ofNat_maskedPlace, BitVec.ofInt_add, BitVec.ofInt_natCast, BitVec.sub_eq_add_neg]
  rfl

theorem succ_register (p : Nat) : BitVec.ofNat 64 p + 1 = BitVec.ofNat 64 (p + 1) :=
  address_add p 1

theorem pred_register {p : Nat} (hp : p ≠ 0) : BitVec.ofNat 64 p - 1 = BitVec.ofNat 64 (p - 1) := by
  obtain ⟨q, rfl⟩ := Nat.exists_eq_succ_of_ne_zero hp
  rw [Nat.succ_sub_one, ← Nat.add_one, ← succ_register]
  exact BitVec.add_sub_cancel ..

/-- One place to the right by a mask, on a tape that has a power of two for its number of cells. -/
theorem succ_and {config : TapeConfig} (htwo : config.isPowerOfTwo = true) {p : Nat}
    (hlt : p < config.length.cells) :
    (BitVec.ofNat 64 p + 1) &&& BitVec.ofNat 64 (config.length.cells - 1) =
      BitVec.ofNat 64 (if p + 1 = config.length.cells then 0 else p + 1) := by
  let t : Tape := { config := { config with policy := .wrapping }, pointer := p }
  have hcells := config.cells_lt
  have hplace : maskedPlace config.length.cells p 1 = (t.shift 1).pointer :=
    maskedPlace_eq (config.isPowerOfTwo_iff.1 htwo) (by omega) p 1
  rw [← ofNat_maskedPlace_one, hplace, Tape.pointer_shift_one hlt (t.moveFault?_of_wraps 1 0 rfl)]
  rfl

/-- One place to the left by a mask. Counting down from zero sets every bit of the register, and
the mask cuts them to size. -/
theorem pred_and {config : TapeConfig} (htwo : config.isPowerOfTwo = true) {p : Nat}
    (hlt : p < config.length.cells) :
    (BitVec.ofNat 64 p - 1) &&& BitVec.ofNat 64 (config.length.cells - 1) =
      BitVec.ofNat 64 (if p = 0 then config.length.cells - 1 else p - 1) := by
  let t : Tape := { config := { config with policy := .wrapping }, pointer := p }
  have hcells := config.cells_lt
  have hplace : maskedPlace config.length.cells p (-1) = (t.shift (-1)).pointer :=
    maskedPlace_eq (config.isPowerOfTwo_iff.1 htwo) (by omega) p (-1)
  rw [← ofNat_maskedPlace_neg_one, hplace,
    Tape.pointer_shift_neg_one hlt (t.moveFault?_of_wraps (-1) 0 rfl)]
  rfl

/-- One place to the right by a comparison with the first place past the end. -/
theorem succ_select {cells p : Nat} (hcells : cells < 2 ^ 64) (hlt : p < cells) :
    (if (Flags.ofSub (BitVec.ofNat 64 p + 1) (BitVec.ofNat 64 cells)).zero then 0
      else BitVec.ofNat 64 p + 1) = BitVec.ofNat 64 (if p + 1 = cells then 0 else p + 1) := by
  have hzero : (Flags.ofSub (BitVec.ofNat 64 p + 1) (BitVec.ofNat 64 cells)).zero = _ :=
    Flags.holds_equal_ofSub ..
  rw [hzero, succ_register]
  by_cases heq : p + 1 = cells
  · rw [if_pos heq, if_pos (decide_eq_true (by rw [heq]))]
    rfl
  · rw [if_neg heq, if_neg]
    rw [decide_eq_true_eq]
    exact fun h => heq (address_inj (by omega) (by omega) h)

/-- One place to the left by a comparison with zero, before the count. -/
theorem pred_select {cells p : Nat} (hcells : cells < 2 ^ 64) (hlt : p < cells) :
    (if (Flags.ofBits (BitVec.ofNat 64 p)).zero then BitVec.ofNat 64 cells
      else BitVec.ofNat 64 p) - 1 = BitVec.ofNat 64 (if p = 0 then cells - 1 else p - 1) := by
  have hzero : (Flags.ofBits (BitVec.ofNat 64 p)).zero = _ := Flags.holds_zero_ofBits ..
  rw [hzero]
  by_cases heq : p = 0
  · rw [if_pos heq, if_pos (decide_eq_true (by rw [heq]; rfl)), pred_register (by omega)]
  · rw [if_neg heq, if_neg, pred_register heq]
    rw [decide_eq_true_eq]
    exact fun h => heq (address_inj (b := 0) (by omega) (by decide) h)

section Lines

variable {platform : Platform} {image : Image} {config : TapeConfig} {base : Nat} {c : Cpu}
  {rest : Listing} {returns : List Listing}

/-- One move at least. -/
abbrev Process.Advances (platform : Platform) (image : Image) : Process → Process → Prop :=
  Relation.TransGen (Process.Moves platform image)

/-! ## Around the ends -/

/-- One place to the right, around the end by a mask. -/
def maskedRight : Listing :=
  [unary .inc pointer,
    binary .and pointer (.value (.below .tapeSize 1))]

/-- One place to the left, around the start by a mask. -/
def maskedLeft : Listing :=
  [unary .dec pointer,
    binary .and pointer (.value (.below .tapeSize 1))]

/-- One place to the right, around the end by a conditional move. -/
def selectedRight : Listing :=
  [unary .inc pointer,
    binary .xor (.register .eax) (.register .eax),
    binary .cmp pointer (.value (.name .tapeSize)),
    binary .cmove pointer (.register .rax)]

/-- One place to the left, around the start by a conditional move. -/
def selectedLeft : Listing :=
  [load .eax (.name .tapeSize),
    binary .test pointer pointer,
    binary .cmovz pointer (.register .rax),
    unary .dec pointer]

theorem moveRightLines_of_wraps {config : TapeConfig} (hw : config.wraps = true) :
    moveRightLines config = if config.isPowerOfTwo then maskedRight else selectedRight := by
  rw [moveRightLines, hw]
  rfl

theorem moveLeftLines_of_wraps {config : TapeConfig} (hw : config.wraps = true) :
    moveLeftLines config = if config.isPowerOfTwo then maskedLeft else selectedLeft := by
  rw [moveLeftLines, hw]
  rfl

theorem value?_belowTapeSize {cells : Nat}
    (hsize : image.symbols.lookup .tapeSize = some (cells : Int)) (hpos : 1 ≤ cells) :
    value? image.symbols (.below .tapeSize 1) = some ((cells - 1 : Nat) : Int) := by
  rw [value?, hsize, Option.map_some]
  congr 1
  omega

theorem advances_maskedRight {cells : Nat}
    (hsize : image.symbols.lookup .tapeSize = some (cells : Int)) (hpos : 1 ≤ cells)
    (hcells : cells < 2 ^ 31) : ∃ flags,
    Process.Advances platform image ⟨maskedRight ++ rest, returns, c⟩
      ⟨rest, returns, { c with
        r12 := (c.r12 + 1) &&& BitVec.ofNat 64 (cells - 1)
        flags }⟩ :=
  ⟨_, .head (Process.moves_operate Image.operate?_incPointer)
    (.single (Process.moves_operate
      (Image.operate?_andPointer (value?_belowTapeSize hsize hpos) (by omega))))⟩

theorem advances_maskedLeft {cells : Nat}
    (hsize : image.symbols.lookup .tapeSize = some (cells : Int)) (hpos : 1 ≤ cells)
    (hcells : cells < 2 ^ 31) : ∃ flags,
    Process.Advances platform image ⟨maskedLeft ++ rest, returns, c⟩
      ⟨rest, returns, { c with
        r12 := (c.r12 - 1) &&& BitVec.ofNat 64 (cells - 1)
        flags }⟩ :=
  ⟨_, .head (Process.moves_operate Image.operate?_decPointer)
    (.single (Process.moves_operate
      (Image.operate?_andPointer (value?_belowTapeSize hsize hpos) (by omega))))⟩

theorem advances_selectedRight {cells : Nat}
    (hsize : image.symbols.lookup .tapeSize = some (cells : Int)) (hcells : cells < 2 ^ 31) :
    ∃ flags,
    Process.Advances platform image ⟨selectedRight ++ rest, returns, c⟩
      ⟨rest, returns, { c with
        r12 := if (Flags.ofSub (c.r12 + 1) (BitVec.ofNat 64 cells)).zero then 0 else c.r12 + 1
        rax := 0
        flags }⟩ :=
  ⟨_, .head (Process.moves_operate Image.operate?_incPointer)
    (.head (Process.moves_operate (Image.operate?_clear (.inl rfl)))
      (.head (Process.moves_operate (Image.operate?_cmpPointer hsize (by omega)))
        (.single (Process.moves_operate (Image.operate?_cmovPointer (.inl rfl))))))⟩

theorem advances_selectedLeft {cells : Nat}
    (hsize : image.symbols.lookup .tapeSize = some (cells : Int)) (hcells : cells < 2 ^ 31) :
    ∃ flags,
    Process.Advances platform image ⟨selectedLeft ++ rest, returns, c⟩
      ⟨rest, returns, { c with
        r12 := (if (Flags.ofBits c.r12).zero then BitVec.ofNat 64 cells else c.r12) - 1
        rax := BitVec.ofNat 64 cells
        flags }⟩ :=
  ⟨_, .head (Process.moves_operate
      (Image.operate?_load (.inl rfl) hsize (by show _ < 2 ^ 32; omega)))
    (.head (Process.moves_operate Image.operate?_testPointer)
      (.head (Process.moves_operate (Image.operate?_cmovPointer (.inr rfl)))
        (.single (Process.moves_operate Image.operate?_decPointer))))⟩

/-! ## Where the tape puts it -/

theorem Loaded.value_tapeSize (hl : Loaded image config base) :
    value? image.symbols (.name .tapeSize) = some (config.length.cells : Int) :=
  hl.constant _ List.mem_cons_self

theorem Loaded.value_belowTapeSize (hl : Loaded image config base) :
    value? image.symbols (.below .tapeSize 1) = some ((config.length.cells - 1 : Nat) : Int) :=
  value?_belowTapeSize hl.value_tapeSize config.one_le

/-- **Moving right**, from a place that is not the last one of a bounded tape. -/
theorem advances_moveRight (hl : Loaded image config base) {p : Nat}
    (hp : c.r12 = BitVec.ofNat 64 p) (hlt : p < config.length.cells)
    (hroom : config.wraps = true ∨ p + 1 ≠ config.length.cells) :
    ∃ rax flags, Process.Advances platform image ⟨moveRightLines config ++ rest, returns, c⟩
      ⟨rest, returns, { c with
        r12 := BitVec.ofNat 64 (if p + 1 = config.length.cells then 0 else p + 1)
        rax, flags }⟩ := by
  have hcells := config.cells_lt
  cases hw : config.wraps with
  | false =>
      have hnot : p + 1 ≠ config.length.cells := by
        rcases hroom with hwraps | hnot
        · rw [hw] at hwraps
          cases hwraps
        · exact hnot
      -- there is room, so counting is enough
      rw [moveRightLines, hw, if_neg hnot, ← succ_register, ← hp]
      exact ⟨_, _, .single (Process.moves_operate Image.operate?_incPointer)⟩
  | true =>
      cases htwo : config.isPowerOfTwo with
      | true =>
          obtain ⟨flags, hmove⟩ :=
            advances_maskedRight hl.value_tapeSize config.one_le (by omega)
          rw [moveRightLines_of_wraps hw, if_pos htwo, ← succ_and htwo hlt, ← hp]
          exact ⟨_, flags, hmove⟩
      | false =>
          obtain ⟨flags, hmove⟩ := advances_selectedRight hl.value_tapeSize (by omega)
          rw [moveRightLines_of_wraps hw, htwo, ← succ_select (by omega) hlt, ← hp]
          exact ⟨_, flags, hmove⟩

/-- **Moving left**, from a place that is not the first one of a bounded tape. -/
theorem advances_moveLeft (hl : Loaded image config base) {p : Nat}
    (hp : c.r12 = BitVec.ofNat 64 p) (hlt : p < config.length.cells)
    (hroom : config.wraps = true ∨ p ≠ 0) :
    ∃ rax flags, Process.Advances platform image ⟨moveLeftLines config ++ rest, returns, c⟩
      ⟨rest, returns, { c with
        r12 := BitVec.ofNat 64 (if p = 0 then config.length.cells - 1 else p - 1)
        rax, flags }⟩ := by
  have hcells := config.cells_lt
  cases hw : config.wraps with
  | false =>
      have hnot : p ≠ 0 := by
        rcases hroom with hwraps | hnot
        · rw [hw] at hwraps
          cases hwraps
        · exact hnot
      rw [moveLeftLines, hw, if_neg hnot, ← pred_register hnot, ← hp]
      exact ⟨_, _, .single (Process.moves_operate Image.operate?_decPointer)⟩
  | true =>
      cases htwo : config.isPowerOfTwo with
      | true =>
          obtain ⟨flags, hmove⟩ :=
            advances_maskedLeft hl.value_tapeSize config.one_le (by omega)
          rw [moveLeftLines_of_wraps hw, if_pos htwo, ← pred_and htwo hlt, ← hp]
          exact ⟨_, flags, hmove⟩
      | false =>
          obtain ⟨flags, hmove⟩ := advances_selectedLeft hl.value_tapeSize (by omega)
          rw [moveLeftLines_of_wraps hw, htwo, ← pred_select (by omega) hlt, ← hp]
          exact ⟨_, flags, hmove⟩

end Lines

end TapeLang.Native
