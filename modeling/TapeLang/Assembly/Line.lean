import TapeLang.Fault
import TapeLang.Instruction
import TapeLang.Tape.Config

/-!
# Assembly listings

A listing is a sequence of lines for a flat assembler. The lines are data: instructions with
registers, operands and labels, the definitions of constants, the reservations of memory and the
comments. `Line.text` writes a line, and `Listing.text` ends every line with a newline. A text in a
listing stands between single quotes, and a quote inside it is written twice.

Registers have fixed roles: `rbx` holds the address of the tape, `r12` the pointer, and `r13` the
index of the last instruction that was checked against an edge.
-/

set_option autoImplicit false

namespace TapeLang.Assembly

/-! ## Quoted texts -/

/-- A text with every quote written twice. -/
def doubleQuotes : List Char → List Char
  | [] => []
  | c :: rest => if c = '\'' then c :: c :: doubleQuotes rest else c :: doubleQuotes rest

/-- A text between single quotes. -/
def quoted (text : String) : String :=
  "'" ++ String.ofList (doubleQuotes text.toList) ++ "'"

/-! ## Registers and names -/

/-- The registers that listings use, under the name that fixes the width. -/
inductive Register where
  | rax | rbx | rcx | rdx | rsi | r12 | r13
  | eax | ecx | edx | edi
  | dl
  deriving DecidableEq, Repr

/-- The text of a register. -/
def Register.text : Register → String
  | rax => "rax"
  | rbx => "rbx"
  | rcx => "rcx"
  | rdx => "rdx"
  | rsi => "rsi"
  | r12 => "r12"
  | r13 => "r13"
  | eax => "eax"
  | ecx => "ecx"
  | edx => "edx"
  | edi => "edi"
  | dl => "dl"

/-- The names a listing defines and refers to. -/
inductive Name where
  | sysRead | sysWrite | sysExit
  | stdin | stdout | stderr
  | exitSuccess | exitFault
  | tapeSize
  | entryPoint
  /-- The head of the loop with this number. -/
  | loop (n : Nat)
  /-- The end of the loop with this number. -/
  | loopEnd (n : Nat)
  | writeCell | readCell
  /-- The routine for operations past an edge. -/
  | edge (e : Edge)
  /-- The message of that routine, and its length. -/
  | edgeMessage (e : Edge)
  | edgeMessageLength (e : Edge)
  /-- The routine that reports a fault. -/
  | fault
  | digits
  | tape
  deriving DecidableEq, Repr

/-- The name of an edge's routine. -/
def edgeText : Edge → String
  | .pointerUnderflow => "POINTER_UNDERFLOW"
  | .pointerOverflow => "POINTER_OVERFLOW"
  | .cellUnderflow => "CELL_UNDERFLOW"
  | .cellOverflow => "CELL_OVERFLOW"

/-- The text of a name. -/
def Name.text : Name → String
  | sysRead => "SYS_read"
  | sysWrite => "SYS_write"
  | sysExit => "SYS_exit"
  | stdin => "STDIN"
  | stdout => "STDOUT"
  | stderr => "STDERR"
  | exitSuccess => "EXIT_SUCCESS"
  | exitFault => "EXIT_FAULT"
  | tapeSize => "TAPE_SIZE"
  | entryPoint => "main"
  | loop n => "loop_" ++ toString n
  | loopEnd n => "loop_" ++ toString n ++ "_end"
  | writeCell => "WRITE_CELL"
  | readCell => "READ_CELL"
  | edge e => edgeText e
  | edgeMessage e => "MSG_" ++ edgeText e
  | edgeMessageLength e => "MSG_" ++ edgeText e ++ "_LEN"
  | fault => "FAULT"
  | digits => "DIGITS"
  | tape => "TAPE"

/-! ## Operands -/

/-- A value that is known when the listing is assembled. -/
inductive Value where
  | number (n : Int)
  | name (n : Name)
  /-- A name plus a number. -/
  | above (n : Name) (k : Nat)
  /-- A name minus a number. -/
  | below (n : Name) (k : Nat)
  /-- The code of a character. -/
  | char (c : Char)
  deriving DecidableEq, Repr

/-- The text of a value. -/
def Value.text : Value → String
  | number n => toString n
  | name n => n.text
  | above n k => n.text ++ " + " ++ toString k
  | below n k => n.text ++ " - " ++ toString k
  | char c => quoted c.toString

/-- A place in memory. -/
inductive Address where
  /-- The address in a register. -/
  | register (r : Register)
  /-- The sum of two registers. -/
  | indexed (base index : Register)
  | value (v : Value)
  deriving DecidableEq, Repr

/-- The text of an address. -/
def Address.text : Address → String
  | register r => "[" ++ r.text ++ "]"
  | indexed base index => "[" ++ base.text ++ " + " ++ index.text ++ "]"
  | value v => "[" ++ v.text ++ "]"

/-- What an instruction works on. -/
inductive Operand where
  | register (r : Register)
  | value (v : Value)
  /-- The byte at an address. -/
  | byte (a : Address)
  /-- What is stored at an address, as wide as the other operand. -/
  | memory (a : Address)
  deriving DecidableEq, Repr

/-- The text of an operand. -/
def Operand.text : Operand → String
  | register r => r.text
  | value v => v.text
  | byte a => "byte " ++ a.text
  | memory a => a.text

/-! ## Instructions -/

/-- Instructions with two operands, the first of which is changed or compared. -/
inductive Binary where
  | mov | add | sub | and | xor | cmp | test | cmove | cmovz
  deriving DecidableEq, Repr

/-- The mnemonic of an instruction with two operands. -/
def Binary.text : Binary → String
  | mov => "mov"
  | add => "add"
  | sub => "sub"
  | and => "and"
  | xor => "xor"
  | cmp => "cmp"
  | test => "test"
  | cmove => "cmove"
  | cmovz => "cmovz"

/-- Instructions with one operand. -/
inductive Unary where
  | inc | dec | div
  deriving DecidableEq, Repr

/-- The mnemonic of an instruction with one operand. -/
def Unary.text : Unary → String
  | inc => "inc"
  | dec => "dec"
  | div => "div"

/-- Jumps, with their conditions. -/
inductive Jump where
  | always | equal | zero | notZero | aboveOrEqual | greater
  deriving DecidableEq, Repr

/-- The mnemonic of a jump. -/
def Jump.text : Jump → String
  | always => "jmp"
  | equal => "je"
  | zero => "jz"
  | notZero => "jnz"
  | aboveOrEqual => "jae"
  | greater => "jg"

/-- Where a jump goes. -/
inductive Target where
  | name (n : Name)
  /-- The next anonymous label below. -/
  | forward
  /-- The last anonymous label above. -/
  | backward
  deriving DecidableEq, Repr

/-- The text of a target. -/
def Target.text : Target → String
  | name n => n.text
  | forward => "@f"
  | backward => "@b"

/-- An instruction of the target machine. -/
inductive Operation where
  | binary (op : Binary) (dst src : Operand)
  | unary (op : Unary) (arg : Operand)
  /-- Load an address, not what is stored there. -/
  | lea (dst : Register) (a : Address)
  | jump (j : Jump) (target : Target)
  | call (n : Name)
  | ret
  | syscall
  deriving DecidableEq, Repr

/-- The text of an instruction. -/
def Operation.text : Operation → String
  | binary op dst src => op.text ++ " " ++ dst.text ++ ", " ++ src.text
  | unary op arg => op.text ++ " " ++ arg.text
  | lea dst a => "lea " ++ dst.text ++ ", " ++ a.text
  | jump j target => j.text ++ " " ++ target.text
  | call n => "call " ++ n.text
  | ret => "ret"
  | syscall => "syscall"

/-! ## Lines -/

/-- What a comment names. -/
inductive Comment where
  /-- The instruction whose code follows. -/
  | instruction (command : Command) (index : Int)
  /-- The loop whose code follows. -/
  | loop (openIndex closeIndex : Int)
  deriving DecidableEq, Repr

/-- The text of a comment. -/
def Comment.text : Comment → String
  | instruction c index =>
      "; " ++ c.symbol.toString ++ " (instruction " ++ toString index ++ ")"
  | loop openIndex closeIndex =>
      "; loop " ++ toString openIndex ++ ".." ++ toString closeIndex

/-- What a constant is defined as. -/
inductive Definition where
  | number (n : Nat)
  /-- A tape length, as it was given. -/
  | length (l : TapeLength)
  /-- The number of bytes from a name up to here. -/
  | since (n : Name)
  deriving DecidableEq, Repr

/-- The text of a definition's right-hand side. -/
def Definition.text : Definition → String
  | number n => toString n
  | length l => l.text
  | since n => "$ - " ++ n.text

/-- A line of a listing. -/
inductive Line where
  | blank
  /-- The format of the executable. -/
  | format
  /-- The start of the program's code. -/
  | codeSegment
  /-- The start of the program's data. -/
  | dataSegment
  /-- Where execution starts. -/
  | entry (n : Name)
  | define (n : Name) (d : Definition)
  | label (n : Name)
  | anonymous
  | comment (c : Comment)
  | code (o : Operation)
  /-- The bytes of a text. -/
  | bytes (n : Name) (text : String)
  /-- A number of uninitialized bytes. -/
  | reserve (n : Name) (count : Value)
  deriving DecidableEq, Repr

/-- The text of a line, without its newline. -/
def Line.text : Line → String
  | blank => ""
  | format => "format ELF64 executable 3"
  | codeSegment => "segment readable executable"
  | dataSegment => "segment readable writeable"
  | entry n => "entry " ++ n.text
  | define n d => n.text ++ " = " ++ d.text
  | label n => n.text ++ ":"
  | anonymous => "@@:"
  | comment c => "    " ++ c.text
  | code o => "    " ++ o.text
  | bytes n text => n.text ++ " db " ++ quoted text
  | reserve n count => n.text ++ " rb " ++ count.text

/-- A listing is a sequence of lines. -/
abbrev Listing := List Line

/-- The text of a listing, every line ended by a newline. -/
def Listing.text (listing : Listing) : String :=
  listing.foldl (fun text line => text ++ line.text ++ "\n") ""

end TapeLang.Assembly
