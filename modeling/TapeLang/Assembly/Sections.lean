import TapeLang.Assembly.Line

/-!
# The fixed parts of a listing

Around the code of a program a listing has a header, an epilogue that ends the program and holds
the two routines for input and output, the routines that report faults if the tape is bounded, and
the data. They depend on the tape configuration alone.
-/

set_option autoImplicit false

namespace TapeLang.Assembly

/-! ## Short forms -/

/-- The address of the cell under the pointer. -/
def cellAddress : Address :=
  .indexed .rbx .r12

/-- The cell under the pointer. -/
def cell : Operand :=
  .byte cellAddress

/-- The pointer. -/
def pointer : Operand :=
  .register .r12

/-- The index of the last instruction that was checked against an edge. -/
def checkedIndex : Operand :=
  .register .r13

/-- A line that moves a value into a register. -/
def load (r : Register) (v : Value) : Line :=
  .code (.binary .mov (.register r) (.value v))

/-- A line with a two-operand instruction. -/
def binary (op : Binary) (dst src : Operand) : Line :=
  .code (.binary op dst src)

/-- A line with a one-operand instruction. -/
def unary (op : Unary) (arg : Operand) : Line :=
  .code (.unary op arg)

/-- A line with a jump to a name. -/
def jump (j : Jump) (n : Name) : Line :=
  .code (.jump j (.name n))

/-! ## Sections -/

/-- Constants, and the start of the program: the address of the tape, and a zero pointer. -/
def header (length : TapeLength) : Listing :=
  [.format,
    .blank,
    .define .sysRead (.number 0),
    .define .sysWrite (.number 1),
    .define .sysExit (.number 60),
    .blank,
    .define .stdin (.number 0),
    .define .stdout (.number 1),
    .define .stderr (.number 2),
    .blank,
    .define .exitSuccess (.number 0),
    .define .exitFault (.number 1),
    .blank,
    .define .tapeSize (.length length),
    .blank,
    .codeSegment,
    .entry .entryPoint,
    .blank,
    .label .entryPoint,
    load .rbx (.name .tape),
    binary .xor pointer pointer]

/-- The end of the program, and the routines that write and read the cell under the pointer. A
read that yields nothing stores zero. -/
def epilogue : Listing :=
  [.blank,
    load .eax (.name .sysExit),
    load .edi (.name .exitSuccess),
    .code .syscall,
    .blank,
    .label .writeCell,
    load .eax (.name .sysWrite),
    load .edi (.name .stdout),
    .code (.lea .rsi cellAddress),
    load .edx (.number 1),
    .code .syscall,
    .code .ret,
    .blank,
    .label .readCell,
    load .eax (.name .sysRead),
    load .edi (.name .stdin),
    .code (.lea .rsi cellAddress),
    load .edx (.number 1),
    .code .syscall,
    binary .test (.register .rax) (.register .rax),
    .code (.jump .greater .forward),
    binary .mov cell (.value (.number 0)),
    .anonymous,
    .code .ret]

/-- The routine for one edge: it passes its message on. -/
def edgeRoutine (e : Edge) : Listing :=
  [.blank,
    .label (.edge e),
    load .rsi (.name (.edgeMessage e)),
    load .edx (.name (.edgeMessageLength e)),
    jump .always .fault]

/-- The routine that reports a fault: it writes the message, the index of the instruction in
decimal and a newline to the error stream, and ends the program. -/
def faultReporter : Listing :=
  [.blank,
    .label .fault,
    load .eax (.name .sysWrite),
    load .edi (.name .stderr),
    .code .syscall,
    .code (.lea .rsi (.value (.above .digits 20))),
    binary .mov (.byte (.register .rsi)) (.value (.number 10)),
    binary .mov (.register .rax) checkedIndex,
    load .ecx (.number 10),
    .anonymous,
    binary .xor (.register .edx) (.register .edx),
    unary .div (.register .rcx),
    binary .add (.register .dl) (.value (.char '0')),
    unary .dec (.register .rsi),
    binary .mov (.memory (.register .rsi)) (.register .dl),
    binary .test (.register .rax) (.register .rax),
    .code (.jump .notZero .backward),
    load .rdx (.above .digits 21),
    binary .sub (.register .rdx) (.register .rsi),
    load .eax (.name .sysWrite),
    load .edi (.name .stderr),
    .code .syscall,
    load .eax (.name .sysExit),
    load .edi (.name .exitFault),
    .code .syscall]

/-- The routines that a bounded tape needs. -/
def faultRoutines (config : TapeConfig) : Listing :=
  if config.wraps then [] else Edge.all.flatMap edgeRoutine ++ faultReporter

/-- The message of an edge's routine, up to the index. -/
def edgeMessage (e : Edge) : Listing :=
  [.bytes (.edgeMessage e) (e.description ++ " at instruction "),
    .define (.edgeMessageLength e) (.since (.edgeMessage e))]

/-- The data: the messages and the room for an index if the tape is bounded, and the tape. -/
def dataSegment (config : TapeConfig) : Listing :=
  [.blank, .dataSegment]
    ++ (if config.wraps then []
        else Edge.all.flatMap edgeMessage ++ [.reserve .digits (.number 21)])
    ++ [.reserve .tape (.name .tapeSize)]

end TapeLang.Assembly
