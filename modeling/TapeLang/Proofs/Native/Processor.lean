import Mathlib.Algebra.Group.Int.Defs
import Mathlib.Algebra.Group.Nat.Defs
import TapeLang.Assembly.Line

/-!
# The target processor

What the instructions of a listing do. Registers are 64 bits wide and wrap around. A write to a
32-bit register clears the upper half, and a write to an 8-bit register keeps the other bits. Every
instruction sets the flags that the processor's manual says it sets, and no others.

An image is an assembled listing: its names have values, and its data lies at consecutive addresses
from `origin` on. Only the data may be read and written. Whatever an instruction may not do has no
result at all, and neither has an instruction that cannot be encoded.

What the surroundings leave open is a parameter, the `Platform`. A system call keeps `rbx`, `r12`,
`r13` and the memory apart from what it is asked to do, and nothing else.
-/

set_option autoImplicit false

namespace TapeLang.Native

open Assembly

/-! ## Flags -/

/-- The flags that instructions set and conditions test. -/
structure Flags where
  zero : Bool
  carry : Bool
  sign : Bool
  overflow : Bool
  deriving DecidableEq, Repr

namespace Flags

/-- The flags of a bitwise operation with this result. -/
def ofBits {w : Nat} (x : BitVec w) : Flags :=
  ⟨x == 0, false, x.msb, false⟩

/-- The flags of an addition. -/
def ofAdd {w : Nat} (a b : BitVec w) : Flags :=
  ⟨a + b == 0, a.uaddOverflow b, (a + b).msb, a.saddOverflow b⟩

/-- The flags of a subtraction, which are also those of a comparison. -/
def ofSub {w : Nat} (a b : BitVec w) : Flags :=
  ⟨a - b == 0, a.ult b, (a - b).msb, a.ssubOverflow b⟩

/-- The flags with the carry of earlier ones. -/
def keepCarry (f old : Flags) : Flags :=
  { f with carry := old.carry }

/-- Whether the condition of a jump holds. -/
def holds (f : Flags) : Jump → Bool
  | .always => true
  | .equal | .zero => f.zero
  | .notZero => !f.zero
  | .aboveOrEqual => !f.carry
  | .greater => !f.zero && f.sign == f.overflow

end Flags

/-! ## The processor and its memory -/

/-- The state of a program that is being executed, apart from the place of execution. -/
structure Cpu where
  rax : BitVec 64
  rbx : BitVec 64
  rcx : BitVec 64
  rdx : BitVec 64
  rsi : BitVec 64
  rdi : BitVec 64
  r12 : BitVec 64
  r13 : BitVec 64
  flags : Flags
  memory : BitVec 64 → UInt8
  /-- The input that is still to be read. -/
  input : List UInt8
  /-- What was written to the output stream. -/
  stdout : List UInt8
  /-- What was written to the error stream. -/
  stderr : List UInt8

/-- What a program may not rely on. -/
structure Platform where
  /-- The registers and the flags at the start. -/
  entry : Cpu
  /-- The registers and the flags after a system call, as far as the call may change them. -/
  afterCall : Cpu → Cpu
  /-- The flags after a division. -/
  afterDivision : Cpu → Flags

/-- An assembled listing. -/
structure Image where
  listing : Listing
  /-- The values of the names. -/
  symbols : List (Name × Int)
  /-- The address of the data. -/
  origin : Nat
  data : List UInt8

/-- The number of bits of a register. -/
def width : Register → Nat
  | .rax | .rbx | .rcx | .rdx | .rsi | .r12 | .r13 => 64
  | .eax | .ecx | .edx | .edi => 32
  | .dl => 8

namespace Cpu

/-- All 64 bits of the register that a name refers to a part of. -/
def full (c : Cpu) : Register → BitVec 64
  | .rax | .eax => c.rax
  | .rbx => c.rbx
  | .rcx | .ecx => c.rcx
  | .rdx | .edx | .dl => c.rdx
  | .rsi => c.rsi
  | .edi => c.rdi
  | .r12 => c.r12
  | .r13 => c.r13

/-- Replace all 64 bits of a register. -/
def setFull (c : Cpu) : Register → BitVec 64 → Cpu
  | .rax, x | .eax, x => { c with rax := x }
  | .rbx, x => { c with rbx := x }
  | .rcx, x | .ecx, x => { c with rcx := x }
  | .rdx, x | .edx, x | .dl, x => { c with rdx := x }
  | .rsi, x => { c with rsi := x }
  | .edi, x => { c with rdi := x }
  | .r12, x => { c with r12 := x }
  | .r13, x => { c with r13 := x }

/-- Write a register. -/
def set {w : Nat} (c : Cpu) (r : Register) (x : BitVec w) : Cpu :=
  c.setFull r (if w = 8 then (c.full r).extractLsb' 8 56 ++ x.setWidth 8 else x.setWidth 64)

/-- Write a byte of the memory. -/
def store (c : Cpu) (a : BitVec 64) (byte : UInt8) : Cpu :=
  { c with memory := fun b => if b = a then byte else c.memory b }

end Cpu

/-! ## Operands -/

/-- The number that a value stands for. -/
def value? (symbols : List (Name × Int)) : Value → Option Int
  | .number n => some n
  | .name n => symbols.lookup n
  | .above n k => (symbols.lookup n).map (· + (k : Int))
  | .below n k => (symbols.lookup n).map (· - (k : Int))
  | .char c => some c.toNat

/-- Whether an instruction has room for a number. Numbers are stored in 32 bits at most and
sign-extended; only a move to a register has room for 64 bits. -/
def hasRoom (op : Binary) (w : Nat) (n : Int) : Bool :=
  if w = 64 ∧ op ≠ .mov then decide (-(2 ^ 31) ≤ n ∧ n < 2 ^ 31)
  else decide (-(2 ^ (w - 1)) ≤ n ∧ n < 2 ^ w)

/-- The number of bits that an operand fixes. -/
def operandWidth? : Operand → Option Nat
  | .register r => some (width r)
  | .byte _ => some 8
  | .value _ | .memory _ => none

namespace Image

variable (image : Image)

/-- Whether an address is one of the data. -/
def mapped (a : BitVec 64) : Bool :=
  decide (image.origin ≤ a.toNat ∧ a.toNat < image.origin + image.data.length)

/-- The address that is meant. -/
def address? (c : Cpu) : Address → Option (BitVec 64)
  | .register r => some (c.full r)
  | .indexed base index => some (c.full base + c.full index)
  | .value v => (value? image.symbols v).map (BitVec.ofInt 64)

/-- Read a byte of the data. -/
def load? (c : Cpu) (a : BitVec 64) : Option UInt8 :=
  if image.mapped a then some (c.memory a) else none

/-- Write a byte of the data. -/
def store? (c : Cpu) (a : BitVec 64) (byte : UInt8) : Option Cpu :=
  if image.mapped a then some (c.store a byte) else none

/-- The bytes of the data from an address on. -/
def loadMany? (c : Cpu) : BitVec 64 → Nat → Option (List UInt8)
  | _, 0 => some []
  | a, k + 1 => do
      let byte ← image.load? c a
      let rest ← loadMany? c (a + 1) k
      return byte :: rest

/-- What an operand holds. -/
def read? (op : Binary) (w : Nat) (c : Cpu) : Operand → Option (BitVec w)
  | .register r => if width r = w then some ((c.full r).setWidth w) else none
  | .value v => do
      let n ← value? image.symbols v
      if hasRoom op w n then some (BitVec.ofInt w n) else none
  | .byte a | .memory a =>
      if w = 8 then do
        let a ← image.address? c a
        let byte ← image.load? c a
        return byte.toBitVec.setWidth w
      else none

/-- Change what an operand holds. -/
def write? {w : Nat} (x : BitVec w) (c : Cpu) : Operand → Option Cpu
  | .register r => if width r = w then some (c.set r x) else none
  | .value _ => none
  | .byte a | .memory a =>
      if w = 8 then do
        let a ← image.address? c a
        image.store? c a (UInt8.ofBitVec (x.setWidth 8))
      else none

/-! ## Instructions -/

/-- What an instruction does with the contents of its two operands. -/
def combine? {w : Nat} (op : Binary) (dst : Operand) (a b : BitVec w) (c : Cpu) : Option Cpu :=
  match op with
  | .mov => image.write? b c dst
  | .add => image.write? (a + b) { c with flags := .ofAdd a b } dst
  | .sub => image.write? (a - b) { c with flags := .ofSub a b } dst
  | .and => image.write? (a &&& b) { c with flags := .ofBits (a &&& b) } dst
  | .xor => image.write? (a ^^^ b) { c with flags := .ofBits (a ^^^ b) } dst
  | .cmp => some { c with flags := .ofSub a b }
  | .test => some { c with flags := .ofBits (a &&& b) }
  | .cmove | .cmovz => if c.flags.zero then image.write? b c dst else some c

/-- Execute an instruction with two operands of the same width. -/
def binary? (op : Binary) (dst src : Operand) (c : Cpu) : Option Cpu := do
  let w ← operandWidth? dst <|> operandWidth? src
  let a ← image.read? op w c dst
  let b ← image.read? op w c src
  image.combine? op dst a b c

/-- Divide the number in `rdx` and `rax`. The quotient must fit into `rax`. -/
def divide? (platform : Platform) (divisor : BitVec 64) (c : Cpu) : Option Cpu :=
  let dividend := c.rdx.toNat * 2 ^ 64 + c.rax.toNat
  let quotient := dividend / divisor.toNat
  if divisor.toNat = 0 ∨ 2 ^ 64 ≤ quotient then none
  else
    some { c with
      rax := BitVec.ofNat 64 quotient
      rdx := BitVec.ofNat 64 (dividend % divisor.toNat)
      flags := platform.afterDivision c }

/-- What an instruction does with the contents of its operand. Counting up and down keeps the
carry. -/
def modify? {w : Nat} (platform : Platform) (op : Unary) (arg : Operand) (a : BitVec w) (c : Cpu) :
    Option Cpu :=
  match op with
  | .inc => image.write? (a + 1) { c with flags := (Flags.ofAdd a 1).keepCarry c.flags } arg
  | .dec => image.write? (a - 1) { c with flags := (Flags.ofSub a 1).keepCarry c.flags } arg
  | .div => if w = 64 then divide? platform (a.setWidth 64) c else none

/-- Execute an instruction with one operand. -/
def unary? (platform : Platform) (op : Unary) (arg : Operand) (c : Cpu) : Option Cpu := do
  let w ← operandWidth? arg
  let a ← image.read? .mov w c arg
  image.modify? platform op arg a c

/-- Execute an instruction that goes on with the next line. -/
def operate? (platform : Platform) : Operation → Cpu → Option Cpu
  | .binary op dst src, c => image.binary? op dst src c
  | .unary op arg, c => image.unary? platform op arg c
  | .lea dst a, c => do
      let a ← image.address? c a
      if width dst = 64 then some (c.set dst a) else none
  | .jump _ _, _ | .call _, _ | .ret, _ | .syscall, _ => none

/-! ## System calls -/

/-- The result of a system call. -/
inductive CallResult where
  | exit (status : Nat)
  | resume (c : Cpu)

/-- Return from a system call: `rax` holds the result. -/
def returning (platform : Platform) (result : BitVec 64) (c : Cpu) : Cpu :=
  { platform.afterCall c with
    rax := result
    rbx := c.rbx
    r12 := c.r12
    r13 := c.r13
    memory := c.memory
    input := c.input
    stdout := c.stdout
    stderr := c.stderr }

/-- Read one byte into the memory; nothing is stored at the end of the input. -/
def readByte? (platform : Platform) (c : Cpu) : Option CallResult :=
  if c.rdi = 0 ∧ c.rdx = 1 ∧ image.mapped c.rsi then
    match c.input with
    | [] => some (.resume (returning platform 0 c))
    | byte :: input => some (.resume (returning platform 1 { c.store c.rsi byte with input }))
  else none

/-- Write bytes of the memory to one of the two output streams. -/
def writeBytes? (platform : Platform) (c : Cpu) : Option CallResult := do
  let bytes ← image.loadMany? c c.rsi c.rdx.toNat
  if c.rdi = 1 then
    return .resume (returning platform c.rdx { c with stdout := c.stdout ++ bytes })
  else if c.rdi = 2 then
    return .resume (returning platform c.rdx { c with stderr := c.stderr ++ bytes })
  else none

/-- Carry out the system call that `rax` asks for. -/
def systemCall? (platform : Platform) (c : Cpu) : Option CallResult :=
  if c.rax = 0 then image.readByte? platform c
  else if c.rax = 1 then image.writeBytes? platform c
  else if c.rax = 60 then some (.exit (c.rdi.toNat % 256))
  else none

end Image

end TapeLang.Native
