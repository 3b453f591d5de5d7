import TapeLang.Proofs.Native.Moving

/-!
# Where a mask is right

On a tape that wraps around, a listing takes the pointer around the ends by a mask if the number of
cells is a power of two, and by a conditional move otherwise. Both ways can be written for any
number of cells. The conditional move is always right (`turns_selectedRight`, `turns_selectedLeft`).
The mask is right if the number of cells is a power of two (`maskedPlace_eq`). Otherwise it goes
wrong in either direction: to the right from the last cell, and to the left from the cell whose
number is the greatest power of two on the tape (`isPowerOfTwo_of_maskedRight`,
`isPowerOfTwo_of_maskedLeft`).

The main statement is `mask_is_taken_where_right`.
-/

set_option autoImplicit false

namespace TapeLang.Native

open Assembly

/-! ## Places -/

theorem maskedPlace_lt {cells : Nat} (hpos : 1 ≤ cells) (p : Nat) (delta : Int) :
    maskedPlace cells p delta < cells := by
  have hle : maskedPlace cells p delta ≤ cells - 1 := Nat.and_le_right
  omega

theorem wrappedPlace_lt {cells : Nat} (hpos : 1 ≤ cells) (p : Nat) (delta : Int) :
    wrappedPlace cells p delta < cells := by
  have hlt : (p + delta) % (cells : Int) < cells := Int.emod_lt_of_pos _ (by omega)
  rw [wrappedPlace]
  omega

/-- To the right from the last cell, the mask has the test for a power of two as its result. -/
theorem isPowerOfTwo_of_maskedRight {cells : Nat} (hpos : 1 ≤ cells) (hcells : cells < 2 ^ 64)
    (h : ∀ p < cells, maskedPlace cells p 1 = wrappedPlace cells p 1) : cells.isPowerOfTwo := by
  have hsum : ((cells - 1 : Nat) : Int) + 1 = cells := by omega
  have hlast := h (cells - 1) (by omega)
  -- the tape goes around to the first cell, and the register has not wrapped yet
  rw [maskedPlace, wrappedPlace, hsum, Int.emod_self, Int.emod_eq_of_lt (by omega) (by omega),
    Int.toNat_natCast] at hlast
  exact (Nat.and_sub_one_eq_zero_iff_isPowerOfTwo (by omega)).1 hlast

/-- Away from the start, a step to the left goes around nothing. -/
theorem toNat_pred_emod {p : Nat} {n : Int} (hp : p ≠ 0) (hlt : p < n) :
    ((p + -1) % n).toNat = p - 1 := by
  rw [Int.emod_eq_of_lt (by omega) (by omega)]
  omega

/-- To the left from the greatest power of two on the tape, the mask has to keep every bit below
it. The number of the last cell has all of them only if the number of cells is the next power. -/
theorem isPowerOfTwo_of_maskedLeft {cells : Nat} (hpos : 1 ≤ cells) (hcells : cells < 2 ^ 64)
    (h : ∀ p < cells, maskedPlace cells p (-1) = wrappedPlace cells p (-1)) :
    cells.isPowerOfTwo := by
  have hle : 2 ^ cells.log2 ≤ cells := Nat.log2_self_le (by omega)
  have hlt : cells < 2 ^ (cells.log2 + 1) := Nat.lt_log2_self
  rcases Nat.eq_or_lt_of_le hle with heq | hless
  · exact ⟨cells.log2, heq.symm⟩
  · have hne : 2 ^ cells.log2 ≠ 0 := Nat.ne_of_gt (Nat.two_pow_pos _)
    -- what should stay is a row of ones, so it acts as a mask on the number of the last cell
    have hkept : (cells - 1) % 2 ^ cells.log2 = 2 ^ cells.log2 - 1 := by
      have hplace := h _ hless
      rw [maskedPlace, wrappedPlace, toNat_pred_emod hne (by omega), toNat_pred_emod hne (by omega),
        Nat.and_comm, Nat.and_two_pow_sub_one_eq_mod] at hplace
      exact hplace
    -- the last cell is past this power of two once, not twice
    rw [Nat.pow_succ] at hlt
    rw [Nat.mod_eq_sub_mod (by omega), Nat.mod_eq_of_lt (by omega)] at hkept
    omega

/-! ## In a register -/

/-- Whatever the processor holds otherwise and wherever they stand, the lines take the pointer from
one place to another if the tape has so many cells. Apart from it they change `rax` and the flags at
most. -/
def Turns (cells : Nat) (lines : Listing) (p q : Nat) : Prop :=
  ∀ (platform : Platform) (image : Image) (rest : Listing) (returns : List Listing) (c : Cpu),
    image.symbols.lookup .tapeSize = some (cells : Int) → c.r12 = BitVec.ofNat 64 p →
      ∃ rax flags, Process.Advances platform image ⟨lines ++ rest, returns, c⟩
        ⟨rest, returns, { c with r12 := BitVec.ofNat 64 q, rax, flags }⟩

/-- A processor that holds nothing but a pointer. -/
def Cpu.pointingAt (p : Nat) : Cpu where
  rax := 0
  rbx := 0
  rcx := 0
  rdx := 0
  rsi := 0
  rdi := 0
  r12 := BitVec.ofNat 64 p
  r13 := 0
  flags := ⟨false, false, false, false⟩
  memory := fun _ => 0
  input := []
  stdout := []
  stderr := []

/-- There is no move behind the last line. -/
theorem Process.eq_of_reaches_nil {platform : Platform} {image : Image} {returns : List Listing}
    {c : Cpu} {p : Process} (h : Process.Reaches platform image ⟨[], returns, c⟩ p) :
    p = ⟨[], returns, c⟩ := by
  rcases Relation.ReflTransGen.cases_head h with rfl | ⟨q, hq, -⟩
  · rfl
  · cases hq

/-- **Lines take the pointer to one place only.** -/
theorem Turns.unique {cells : Nat} {lines : Listing} {p q q' : Nat} (h : Turns cells lines p q)
    (h' : Turns cells lines p q') (hq : q < 2 ^ 64) (hq' : q' < 2 ^ 64) : q = q' := by
  let c : Cpu := .pointingAt p
  let platform : Platform := ⟨c, id, Cpu.flags⟩
  let image : Image := ⟨[], [(.tapeSize, cells)], 0, []⟩
  obtain ⟨rax, flags, hmove⟩ := h platform image [] [] c rfl rfl
  obtain ⟨rax', flags', hmove'⟩ := h' platform image [] [] c rfl rfl
  apply address_inj hq hq'
  -- the process goes one way, and neither of the two ends has a move left
  rcases hmove.to_reflTransGen.total_of_right_unique Process.moves_rightUnique
    hmove'.to_reflTransGen with hlate | hearly
  · exact (congrArg (Cpu.r12 ∘ Process.cpu) (Process.eq_of_reaches_nil hlate)).symm
  · exact congrArg (Cpu.r12 ∘ Process.cpu) (Process.eq_of_reaches_nil hearly)

theorem turns_maskedRight {cells : Nat} (hpos : 1 ≤ cells) (hcells : cells < 2 ^ 31) (p : Nat) :
    Turns cells maskedRight p (maskedPlace cells p 1) := by
  intro platform image rest returns c hsize hp
  obtain ⟨flags, hmove⟩ := advances_maskedRight hsize hpos hcells
  rw [ofNat_maskedPlace_one, ← hp]
  exact ⟨_, flags, hmove⟩

theorem turns_maskedLeft {cells : Nat} (hpos : 1 ≤ cells) (hcells : cells < 2 ^ 31) (p : Nat) :
    Turns cells maskedLeft p (maskedPlace cells p (-1)) := by
  intro platform image rest returns c hsize hp
  obtain ⟨flags, hmove⟩ := advances_maskedLeft hsize hpos hcells
  rw [ofNat_maskedPlace_neg_one, ← hp]
  exact ⟨_, flags, hmove⟩

theorem turns_selectedRight (t : Tape) (hw : t.config.wraps = true) (h : t.pointer < t.size) :
    Turns t.size selectedRight t.pointer (t.shift 1).pointer := by
  intro platform image rest returns c hsize hp
  have hcells : t.size < 2 ^ 31 := t.config.cells_lt
  obtain ⟨flags, hmove⟩ := advances_selectedRight hsize hcells
  rw [Tape.pointer_shift_one h (t.moveFault?_of_wraps 1 0 hw), ← succ_select (by omega) h, ← hp]
  exact ⟨_, flags, hmove⟩

theorem turns_selectedLeft (t : Tape) (hw : t.config.wraps = true) (h : t.pointer < t.size) :
    Turns t.size selectedLeft t.pointer (t.shift (-1)).pointer := by
  intro platform image rest returns c hsize hp
  have hcells : t.size < 2 ^ 31 := t.config.cells_lt
  obtain ⟨flags, hmove⟩ := advances_selectedLeft hsize hcells
  rw [Tape.pointer_shift_neg_one h (t.moveFault?_of_wraps (-1) 0 hw), ← pred_select (by omega) h,
    ← hp]
  exact ⟨_, flags, hmove⟩

/-! ## On a tape -/

/-- The lines do to the pointer in the register what a move does to the pointer of every tape of
this length that wraps around. -/
def MatchesMove (length : TapeLength) (lines : Listing) (delta : Int) : Prop :=
  ∀ (t : Tape) (index : Int), t.config.length = length → t.config.wraps = true →
    t.pointer < t.size →
      ∃ t', t.move delta index = .ok t' ∧ Turns t.size lines t.pointer t'.pointer

/-- All that matters of a tape is its number of cells and the place of its pointer. -/
theorem matchesMove_iff (config : TapeConfig) (lines : Listing) (delta : Int) :
    MatchesMove config.length lines delta ↔ ∀ p < config.length.cells,
      Turns config.length.cells lines p (wrappedPlace config.length.cells p delta) := by
  constructor
  · intro h p hp
    -- a blank tape will do, with the pointer where it is asked for
    let t : Tape := { config := { config with policy := .wrapping }, pointer := p }
    obtain ⟨t', hmove, hturns⟩ := h t 0 rfl rfl hp
    cases (t.move_of_wraps delta 0 rfl).symm.trans hmove
    exact hturns
  · intro h t index hlength hw hlt
    rw [← hlength] at h
    refine ⟨_, t.move_of_wraps delta index hw, ?_⟩
    rw [Tape.pointer_shift_of_wraps hw]
    exact h t.pointer hlt

/-- If the lines take the pointer where the mask does, they match a move exactly if the mask is
right from every place. -/
theorem matchesMove_iff_maskedPlace {config : TapeConfig} {lines : Listing} {delta : Int}
    (h : ∀ p, Turns config.length.cells lines p (maskedPlace config.length.cells p delta)) :
    MatchesMove config.length lines delta ↔ ∀ p < config.length.cells,
      maskedPlace config.length.cells p delta = wrappedPlace config.length.cells p delta := by
  have hpos := config.one_le
  have hcells := config.cells_lt
  rw [matchesMove_iff]
  constructor
  · intro hturns p hp
    have hmasked := maskedPlace_lt hpos p delta
    have hwrapped := wrappedPlace_lt hpos p delta
    exact (h p).unique (hturns p hp) (by omega) (by omega)
  · intro heq p hp
    rw [← heq p hp]
    exact h p

section Config

variable (config : TapeConfig)

theorem isPowerOfTwo_iff_maskedRight : config.isPowerOfTwo = true ↔ ∀ p < config.length.cells,
    maskedPlace config.length.cells p 1 = wrappedPlace config.length.cells p 1 := by
  have hcells := config.cells_lt
  rw [config.isPowerOfTwo_iff]
  constructor
  · intro htwo p _
    exact maskedPlace_eq htwo (by omega) p 1
  · exact isPowerOfTwo_of_maskedRight config.one_le (by omega)

theorem isPowerOfTwo_iff_maskedLeft : config.isPowerOfTwo = true ↔ ∀ p < config.length.cells,
    maskedPlace config.length.cells p (-1) = wrappedPlace config.length.cells p (-1) := by
  have hcells := config.cells_lt
  rw [config.isPowerOfTwo_iff]
  constructor
  · intro htwo p _
    exact maskedPlace_eq htwo (by omega) p (-1)
  · exact isPowerOfTwo_of_maskedLeft config.one_le (by omega)

theorem matchesMove_selectedRight : MatchesMove config.length selectedRight 1 := by
  intro t index _ hw hlt
  exact ⟨_, t.move_of_wraps 1 index hw, turns_selectedRight t hw hlt⟩

theorem matchesMove_selectedLeft : MatchesMove config.length selectedLeft (-1) := by
  intro t index _ hw hlt
  exact ⟨_, t.move_of_wraps (-1) index hw, turns_selectedLeft t hw hlt⟩

end Config

/-- **The mask is taken exactly where it is right.** For every length that a tape can have, the test
for a power of two succeeds exactly on the powers of two, and exactly if the mask takes the pointer
from every cell to where a tape that wraps around has it, to the right and to the left. Either
direction alone decides this. The conditional move takes the pointer there in any case. The lines
leave these very numbers in the register, and a listing has the mask if the test succeeds and the
conditional move if not. -/
theorem mask_is_taken_where_right (config : TapeConfig) :
    let cells := config.length.cells
    (config.isPowerOfTwo = true ↔ ∃ k, cells = 2 ^ k) ∧
    (config.isPowerOfTwo = true ↔ ∀ p < cells,
      maskedPlace cells p 1 = wrappedPlace cells p 1 ∧
      maskedPlace cells p (-1) = wrappedPlace cells p (-1)) ∧
    (config.isPowerOfTwo = true ↔ MatchesMove config.length maskedRight 1) ∧
    (config.isPowerOfTwo = true ↔ MatchesMove config.length maskedLeft (-1)) ∧
    MatchesMove config.length selectedRight 1 ∧
    MatchesMove config.length selectedLeft (-1) ∧
    (∀ p < cells,
      Turns cells maskedRight p (maskedPlace cells p 1) ∧
      Turns cells maskedLeft p (maskedPlace cells p (-1)) ∧
      Turns cells selectedRight p (wrappedPlace cells p 1) ∧
      Turns cells selectedLeft p (wrappedPlace cells p (-1))) ∧
    (config.wraps = true →
      moveRightLines config = (if config.isPowerOfTwo then maskedRight else selectedRight) ∧
      moveLeftLines config = if config.isPowerOfTwo then maskedLeft else selectedLeft) := by
  intro cells
  have hright := isPowerOfTwo_iff_maskedRight config
  have hleft := isPowerOfTwo_iff_maskedLeft config
  have hmaskedRight := turns_maskedRight config.one_le config.cells_lt
  have hmaskedLeft := turns_maskedLeft config.one_le config.cells_lt
  refine ⟨config.isPowerOfTwo_iff, ?_, ?_, ?_, matchesMove_selectedRight config,
    matchesMove_selectedLeft config, ?_, ?_⟩
  · constructor
    · intro htwo p hp
      exact ⟨hright.1 htwo p hp, hleft.1 htwo p hp⟩
    · intro h
      exact hright.2 fun p hp => (h p hp).1
  · rw [matchesMove_iff_maskedPlace hmaskedRight]
    exact hright
  · rw [matchesMove_iff_maskedPlace hmaskedLeft]
    exact hleft
  · intro p hp
    have hselectedRight := (matchesMove_iff config _ _).1 (matchesMove_selectedRight config) p hp
    have hselectedLeft := (matchesMove_iff config _ _).1 (matchesMove_selectedLeft config) p hp
    exact ⟨hmaskedRight p, hmaskedLeft p, hselectedRight, hselectedLeft⟩
  · intro hw
    exact ⟨moveRightLines_of_wraps hw, moveLeftLines_of_wraps hw⟩

/-- On six cells the mask leads to the fifth cell where it should lead around the end, and drops a
bit in the middle of the tape. On eight cells it leads around the start. -/
theorem mask_of_six_and_of_eight_cells :
    let six : TapeConfig := { policy := .wrapping, length := .number 6 }
    let eight : TapeConfig := { policy := .wrapping, length := .number 8 }
    (six.isPowerOfTwo = false ∧ moveRightLines six = selectedRight ∧
      Turns 6 maskedRight 5 4 ∧ Turns 6 selectedRight 5 0 ∧
      Turns 6 maskedLeft 3 0 ∧ Turns 6 selectedLeft 3 2 ∧
      ¬ MatchesMove six.length maskedRight 1 ∧ ¬ MatchesMove six.length maskedLeft (-1)) ∧
    (eight.isPowerOfTwo = true ∧ moveLeftLines eight = maskedLeft ∧
      Turns 8 maskedLeft 0 7 ∧ MatchesMove eight.length maskedLeft (-1)) := by
  intro six eight
  have hnot : six.isPowerOfTwo = false := by decide
  have hpower : eight.isPowerOfTwo = true := by decide
  obtain ⟨-, -, hright, hleft, -, -, hplaces, hlines⟩ := mask_is_taken_where_right six
  obtain ⟨-, -, -, hleft', -, -, hplaces', hlines'⟩ := mask_is_taken_where_right eight
  rw [hnot] at hright hleft hlines
  rw [hpower] at hlines'
  have hlast : maskedPlace 6 5 1 = 4 ∧ wrappedPlace 6 5 1 = 0 := by decide
  have hmiddle : maskedPlace 6 3 (-1) = 0 ∧ wrappedPlace 6 3 (-1) = 2 := by decide
  have hstart : maskedPlace 8 0 (-1) = 7 := by decide
  obtain ⟨hmaskedRight, -, hselectedRight, -⟩ := hplaces 5 (by decide)
  obtain ⟨-, hmaskedLeft, -, hselectedLeft⟩ := hplaces 3 (by decide)
  refine ⟨⟨hnot, (hlines rfl).1, ?_, ?_, ?_, ?_, ?_, ?_⟩, hpower, (hlines' rfl).2, ?_,
    hleft'.1 hpower⟩
  · rw [← hlast.1]
    exact hmaskedRight
  · rw [← hlast.2]
    exact hselectedRight
  · rw [← hmiddle.1]
    exact hmaskedLeft
  · rw [← hmiddle.2]
    exact hselectedLeft
  · rw [← hright]
    decide
  · rw [← hleft]
    decide
  · rw [← hstart]
    exact (hplaces' 0 (by decide)).2.1

end TapeLang.Native
