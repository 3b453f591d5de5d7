import TapeLang.Assembly.Sections
import TapeLang.Proofs.Native.Process

/-!
# What single instructions do

One lemma for every form of instruction that listings use: under which conditions it can be
executed, and the processor afterwards. The proofs about routines cite these and never look into
the processor again.

The last part says when the jump after a comparison is taken.
-/

set_option autoImplicit false

namespace TapeLang.Native

open Assembly

/-! ## Numbers in instructions -/

theorem hasRoom_mov {w k : Nat} (h : k < 2 ^ w) : hasRoom .mov w k = true := by
  have hpow : (0 : Int) ≤ 2 ^ (w - 1) := Int.pow_nonneg (by decide)
  have hk : (k : Int) < 2 ^ w := by exact_mod_cast h
  rw [hasRoom, if_neg (by simp)]
  simp only [decide_eq_true_eq]
  omega

theorem hasRoom_wide {op : Binary} {k : Nat} (h : k < 2 ^ 31) : hasRoom op 64 k = true := by
  rw [hasRoom]
  split
  · simp only [decide_eq_true_eq]
    omega
  · simp only [decide_eq_true_eq]
    omega

theorem hasRoom_byte {op : Binary} {k : Nat} (h : k < 256) : hasRoom op 8 k = true := by
  rw [hasRoom, if_neg (by simp)]
  simp only [decide_eq_true_eq]
  omega

namespace Image

variable {platform : Platform} {image : Image} {c : Cpu}

/-! ## Operands -/

theorem operate?_binary {op : Binary} {dst src : Operand} {w : Nat} {a b : BitVec w}
    (hw : (operandWidth? dst <|> operandWidth? src) = some w)
    (ha : image.read? op w c dst = some a) (hb : image.read? op w c src = some b) :
    image.operate? platform (.binary op dst src) c = image.combine? op dst a b c := by
  simp only [operate?, binary?, hw, ha, hb, Option.bind_eq_bind, Option.bind_some]

theorem operate?_unary {op : Unary} {arg : Operand} {w : Nat} {a : BitVec w}
    (hw : operandWidth? arg = some w) (ha : image.read? .mov w c arg = some a) :
    image.operate? platform (.unary op arg) c = image.modify? platform op arg a c := by
  simp only [operate?, unary?, hw, ha, Option.bind_eq_bind, Option.bind_some]

theorem read?_register (op : Binary) (c : Cpu) (r : Register) :
    image.read? op (width r) c (.register r) = some ((c.full r).setWidth (width r)) :=
  if_pos rfl

theorem read?_number {op : Binary} {w : Nat} {v : Value} {k : Nat}
    (hv : value? image.symbols v = some (k : Int)) (hk : hasRoom op w k = true) :
    image.read? op w c (.value v) = some (BitVec.ofNat w k) := by
  simp only [read?, hv, hk, Option.bind_eq_bind, Option.bind_some, if_true, BitVec.ofInt_natCast]

theorem read?_pointer (op : Binary) (c : Cpu) : image.read? op 64 c pointer = some c.r12 := by
  simp [pointer, read?, width, Cpu.full]

theorem read?_cell (op : Binary) (hm : image.mapped (c.rbx + c.r12) = true) :
    image.read? op 8 c cell = some (c.memory (c.rbx + c.r12)).toBitVec := by
  simp [cell, cellAddress, read?, address?, Cpu.full, load?, hm]

theorem read?_atRsi (op : Binary) (hm : image.mapped c.rsi = true) :
    image.read? op 8 c (.byte (.register .rsi)) = some (c.memory c.rsi).toBitVec ∧
      image.read? op 8 c (.memory (.register .rsi)) = some (c.memory c.rsi).toBitVec := by
  simp [read?, address?, Cpu.full, load?, hm]

/-! ## Registers -/

section Registers

variable {r : Register}

theorem operate?_load {v : Value} {k : Nat} (hr : width r = 32 ∨ width r = 64)
    (hv : value? image.symbols v = some (k : Int)) (hk : k < 2 ^ width r) :
    image.operate? platform (.binary .mov (.register r) (.value v)) c =
      some (c.setFull r (BitVec.ofNat 64 k)) := by
  have hsrc := read?_number (c := c) hv (hasRoom_mov hk)
  have hwidth : (BitVec.ofNat (width r) k).setWidth 64 = BitVec.ofNat 64 k := by
    apply BitVec.eq_of_toNat_eq
    rw [BitVec.toNat_setWidth, BitVec.toNat_ofNat, BitVec.toNat_ofNat, Nat.mod_eq_of_lt hk]
  have hnot : ¬ width r = 8 := by omega
  rw [operate?_binary rfl (read?_register .mov c r) hsrc]
  simp only [combine?, write?, Cpu.set, if_true, if_neg hnot, hwidth]

/-- The exclusive or of a register with itself clears it. -/
theorem operate?_clear (hr : width r = 32 ∨ width r = 64) :
    image.operate? platform (.binary .xor (.register r) (.register r)) c =
      some ({ c with flags := .ofBits (0 : BitVec (width r)) }.setFull r 0) := by
  have hnot : ¬ width r = 8 := by omega
  have hsrc : image.read? .xor (width r) c (.register r) = _ := read?_register .xor c r
  rw [operate?_binary rfl hsrc hsrc]
  simp [combine?, write?, Cpu.set, hnot]

end Registers

theorem operate?_incPointer : image.operate? platform (.unary .inc pointer) c =
    some { c with r12 := c.r12 + 1, flags := (Flags.ofAdd c.r12 1).keepCarry c.flags } := by
  rw [operate?_unary rfl (read?_pointer .mov c)]
  simp [modify?, write?, pointer, width, Cpu.set, Cpu.setFull]

theorem operate?_decPointer : image.operate? platform (.unary .dec pointer) c =
    some { c with r12 := c.r12 - 1, flags := (Flags.ofSub c.r12 1).keepCarry c.flags } := by
  rw [operate?_unary rfl (read?_pointer .mov c)]
  simp [modify?, write?, pointer, width, Cpu.set, Cpu.setFull]

theorem operate?_andPointer {v : Value} {k : Nat} (hv : value? image.symbols v = some (k : Int))
    (hk : k < 2 ^ 31) : image.operate? platform (.binary .and pointer (.value v)) c =
      some { c with
        r12 := c.r12 &&& BitVec.ofNat 64 k
        flags := .ofBits (c.r12 &&& BitVec.ofNat 64 k) } := by
  rw [operate?_binary rfl (read?_pointer .and c) (read?_number hv (hasRoom_wide hk))]
  simp [combine?, write?, pointer, width, Cpu.set, Cpu.setFull]

theorem operate?_cmpPointer {v : Value} {k : Nat} (hv : value? image.symbols v = some (k : Int))
    (hk : k < 2 ^ 31) : image.operate? platform (.binary .cmp pointer (.value v)) c =
      some { c with flags := .ofSub c.r12 (BitVec.ofNat 64 k) } := by
  rw [operate?_binary rfl (read?_pointer .cmp c) (read?_number hv (hasRoom_wide hk))]
  rfl

theorem operate?_testPointer : image.operate? platform (.binary .test pointer pointer) c =
    some { c with flags := .ofBits c.r12 } := by
  rw [operate?_binary rfl (read?_pointer .test c) (read?_pointer .test c)]
  simp [combine?]

/-- Both mnemonics of the conditional move do the same. -/
theorem operate?_cmovPointer {op : Binary} (hop : op = .cmove ∨ op = .cmovz) :
    image.operate? platform (.binary op pointer (.register .rax)) c =
      some { c with r12 := if c.flags.zero then c.rax else c.r12 } := by
  have hsrc : image.read? op 64 c (.register .rax) = some c.rax := by
    simp [read?, width, Cpu.full]
  rw [operate?_binary rfl (read?_pointer op c) hsrc]
  cases hz : c.flags.zero with
  | true =>
      rcases hop with rfl | rfl
      · simp [combine?, hz, write?, pointer, width, Cpu.set, Cpu.setFull]
      · simp [combine?, hz, write?, pointer, width, Cpu.set, Cpu.setFull]
  | false =>
      rcases hop with rfl | rfl
      · simp [combine?, hz]
      · simp [combine?, hz]

/-! ## The cell under the pointer -/

theorem write?_cell (x : BitVec 8) (hm : image.mapped (c.rbx + c.r12) = true) :
    image.write? x c cell = some (c.store (c.rbx + c.r12) (UInt8.ofBitVec x)) := by
  simp [write?, cell, cellAddress, address?, Cpu.full, store?, hm]

theorem operate?_cmpCell {n : Int} (v : UInt8) (hn : n = (v.toNat : Int))
    (hm : image.mapped (c.rbx + c.r12) = true) :
    image.operate? platform (.binary .cmp cell (.value (.number n))) c =
      some { c with flags := .ofSub (c.memory (c.rbx + c.r12)).toBitVec v.toBitVec } := by
  have hbits : BitVec.ofNat 8 v.toNat = v.toBitVec :=
    (BitVec.ofNat_toNat 8 v.toBitVec).trans (BitVec.setWidth_eq _)
  have hsrc : image.read? .cmp 8 c (.value (.number n)) = some (BitVec.ofNat 8 v.toNat) :=
    read?_number (congrArg some hn) (hasRoom_byte v.toNat_lt)
  rw [operate?_binary rfl (read?_cell .cmp hm) hsrc, hbits]
  rfl

theorem operate?_incCell (hm : image.mapped (c.rbx + c.r12) = true) :
    image.operate? platform (.unary .inc cell) c =
      some { c.store (c.rbx + c.r12) (c.memory (c.rbx + c.r12) + 1) with
        flags := (Flags.ofAdd (c.memory (c.rbx + c.r12)).toBitVec 1).keepCarry c.flags } := by
  rw [operate?_unary rfl (read?_cell .mov hm)]
  exact write?_cell _ hm

theorem operate?_decCell (hm : image.mapped (c.rbx + c.r12) = true) :
    image.operate? platform (.unary .dec cell) c =
      some { c.store (c.rbx + c.r12) (c.memory (c.rbx + c.r12) - 1) with
        flags := (Flags.ofSub (c.memory (c.rbx + c.r12)).toBitVec 1).keepCarry c.flags } := by
  rw [operate?_unary rfl (read?_cell .mov hm)]
  exact write?_cell _ hm

theorem operate?_clearCell (hm : image.mapped (c.rbx + c.r12) = true) :
    image.operate? platform (.binary .mov cell (.value (.number 0))) c =
      some (c.store (c.rbx + c.r12) 0) := by
  have hsrc : image.read? .mov 8 c (.value (.number 0)) = some 0 := rfl
  rw [operate?_binary rfl (read?_cell .mov hm) hsrc]
  exact write?_cell 0 hm

theorem operate?_leaCell : image.operate? platform (.lea .rsi cellAddress) c =
    some { c with rsi := c.rbx + c.r12 } := by
  simp [operate?, cellAddress, address?, Cpu.full, width, Cpu.set, Cpu.setFull]

/-! ## The reporter's instructions -/

theorem operate?_testResult :
    image.operate? platform (.binary .test (.register .rax) (.register .rax)) c =
      some { c with flags := .ofBits c.rax } := by
  have hsrc : image.read? .test 64 c (.register .rax) = some c.rax := by
    simp [read?, width, Cpu.full]
  rw [operate?_binary rfl hsrc hsrc]
  simp [combine?]

theorem operate?_leaValue {v : Value} {k : Nat} (hv : value? image.symbols v = some (k : Int)) :
    image.operate? platform (.lea .rsi (.value v)) c =
      some { c with rsi := BitVec.ofNat 64 k } := by
  simp [operate?, address?, hv, width, Cpu.set, Cpu.setFull]

theorem operate?_storeNumber {k : Nat} (hm : image.mapped c.rsi = true) (hk : k < 256) :
    image.operate? platform (.binary .mov (.byte (.register .rsi)) (.value (.number k))) c =
      some (c.store c.rsi (UInt8.ofNat k)) := by
  have hsrc : image.read? .mov 8 c (.value (.number k)) = some (BitVec.ofNat 8 k) :=
    read?_number rfl (hasRoom_byte hk)
  rw [operate?_binary rfl (read?_atRsi .mov hm).1 hsrc]
  simp only [combine?, write?, address?, Cpu.full, store?, hm, Option.bind_eq_bind,
    Option.bind_some, if_true, BitVec.setWidth_eq]
  rfl

theorem operate?_copyIndex :
    image.operate? platform (.binary .mov (.register .rax) checkedIndex) c =
      some { c with rax := c.r13 } := by
  have hdst : image.read? .mov 64 c (.register .rax) = some c.rax := by
    simp [read?, width, Cpu.full]
  have hsrc : image.read? .mov 64 c checkedIndex = some c.r13 := by
    simp [checkedIndex, read?, width, Cpu.full]
  rw [operate?_binary rfl hdst hsrc]
  simp [combine?, write?, width, Cpu.set, Cpu.setFull]

/-- A division by ten does not overflow if the upper half of the dividend is zero. -/
theorem operate?_divTen (hcx : c.rcx = 10) (hdx : c.rdx = 0) :
    image.operate? platform (.unary .div (.register .rcx)) c =
      some { c with
        rax := BitVec.ofNat 64 (c.rax.toNat / 10)
        rdx := BitVec.ofNat 64 (c.rax.toNat % 10)
        flags := platform.afterDivision c } := by
  have hsrc : image.read? .mov 64 c (.register .rcx) = some 10 := by
    simp [read?, width, Cpu.full, hcx]
  have hdividend : c.rdx.toNat * 2 ^ 64 + c.rax.toNat = c.rax.toNat := by
    have hzero : (0 : BitVec 64).toNat = 0 := rfl
    rw [hdx, hzero, Nat.zero_mul, Nat.zero_add]
  have hlt := c.rax.isLt
  have hfits : ¬ ((10 : Nat) = 0 ∨ 2 ^ 64 ≤ c.rax.toNat / 10) := by omega
  have hten : ((10 : BitVec 64).setWidth 64).toNat = 10 := rfl
  rw [operate?_unary rfl hsrc, modify?, if_pos rfl]
  simp only [divide?, hten, hdividend, if_neg hfits]

theorem append_digit : ∀ d < 10,
    ((BitVec.ofNat 64 d).extractLsb' 8 56 ++ (BitVec.ofNat 8 d + BitVec.ofNat 8 48) :
      BitVec 64) = BitVec.ofNat 64 (d + 48) := by
  decide

/-- Turning a digit into its character. -/
theorem operate?_addZeroChar {d : Nat} (hd : d < 10) (hdx : c.rdx = BitVec.ofNat 64 d) :
    image.operate? platform (.binary .add (.register .dl) (.value (.char '0'))) c =
      some { c with
        rdx := BitVec.ofNat 64 (d + 48)
        flags := .ofAdd (BitVec.ofNat 8 d) (BitVec.ofNat 8 48) } := by
  have hdst : image.read? .add 8 c (.register .dl) = some (BitVec.ofNat 8 d) := by
    simp [read?, width, Cpu.full, hdx]
  have hsrc : image.read? .add 8 c (.value (.char '0')) = some (BitVec.ofNat 8 48) :=
    read?_number rfl (hasRoom_byte (by decide))
  have hsum : ((BitVec.ofNat 64 d).extractLsb' 8 56 ++ (BitVec.ofNat 8 d + BitVec.ofNat 8 48) :
      BitVec 64) = BitVec.ofNat 64 (d + 48) :=
    append_digit d hd
  rw [operate?_binary rfl hdst hsrc]
  simp only [combine?, write?, width, Cpu.set, Cpu.full, Cpu.setFull, hdx, if_true,
    BitVec.setWidth_eq, hsum]

theorem operate?_decRsi : image.operate? platform (.unary .dec (.register .rsi)) c =
    some { c with rsi := c.rsi - 1, flags := (Flags.ofSub c.rsi 1).keepCarry c.flags } := by
  have hsrc : image.read? .mov 64 c (.register .rsi) = some c.rsi := by
    simp [read?, width, Cpu.full]
  rw [operate?_unary rfl hsrc]
  simp [modify?, write?, width, Cpu.set, Cpu.setFull]

theorem operate?_storeDigit (hm : image.mapped c.rsi = true) :
    image.operate? platform (.binary .mov (.memory (.register .rsi)) (.register .dl)) c =
      some (c.store c.rsi (UInt8.ofBitVec (c.rdx.setWidth 8))) := by
  have hsrc : image.read? .mov 8 c (.register .dl) = some (c.rdx.setWidth 8) := by
    simp [read?, width, Cpu.full]
  rw [operate?_binary rfl (read?_atRsi .mov hm).2 hsrc]
  simp [combine?, write?, address?, Cpu.full, store?, hm]

theorem operate?_subRsi :
    image.operate? platform (.binary .sub (.register .rdx) (.register .rsi)) c =
      some { c with rdx := c.rdx - c.rsi, flags := .ofSub c.rdx c.rsi } := by
  have hdst : image.read? .sub 64 c (.register .rdx) = some c.rdx := by
    simp [read?, width, Cpu.full]
  have hsrc : image.read? .sub 64 c (.register .rsi) = some c.rsi := by
    simp [read?, width, Cpu.full]
  rw [operate?_binary rfl hdst hsrc]
  simp [combine?, write?, width, Cpu.set, Cpu.setFull]

end Image

/-! ## Conditions -/

namespace Flags

theorem holds_equal_ofSub {w : Nat} (a b : BitVec w) :
    (ofSub a b).holds .equal = decide (a = b) := by
  show (a - b == 0) = decide (a = b)
  rw [Bool.eq_iff_iff]
  rw [beq_iff_eq, decide_eq_true_eq, BitVec.sub_eq_iff_eq_add]
  exact Eq.congr_right (BitVec.zero_add b)

theorem holds_aboveOrEqual_ofSub {w : Nat} (a b : BitVec w) :
    (ofSub a b).holds .aboveOrEqual = decide (b.toNat ≤ a.toNat) := by
  show (!a.ult b) = decide (b.toNat ≤ a.toNat)
  rw [Bool.eq_iff_iff]
  simp [BitVec.ult]

theorem holds_zero_ofBits {w : Nat} (a : BitVec w) :
    (ofBits a).holds .zero = decide (a = 0) := by
  show (a == 0) = decide (a = 0)
  exact Bool.beq_eq_decide_eq a 0

theorem holds_notZero_ofBits {w : Nat} (a : BitVec w) :
    (ofBits a).holds .notZero = !decide (a = 0) :=
  congrArg (!·) (holds_zero_ofBits a)

/-- Whether a system call has read anything. -/
theorem holds_greater_zero : (ofBits (0 : BitVec 64)).holds .greater = false := by
  decide

theorem holds_greater_one : (ofBits (1 : BitVec 64)).holds .greater = true := by
  decide

end Flags

end TapeLang.Native
