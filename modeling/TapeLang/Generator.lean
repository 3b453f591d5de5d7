import TapeLang.Assembly.Sections
import TapeLang.Body.Visit

/-!
# Generating listings

The code of a program follows its walk: every instruction becomes a few lines, and every loop
becomes a test at its head and a jump back at its end, with two labels that carry the loop's
number. Loops are numbered in the order in which they are entered.

A generator can be used for many programs, and its configuration can be changed in between. It
starts every listing with an empty page, so what it generated before leaves no trace.
-/

set_option autoImplicit false

namespace TapeLang

open Assembly

/-! ## The code of one instruction -/

/-- The lines that check an instruction against an edge; nothing if the tape wraps around. -/
def checked (config : TapeConfig) (i : Instruction) (test : Line) (j : Jump) (e : Edge) :
    Listing :=
  if config.wraps then []
  else [binary .mov checkedIndex (.value (.number i.index)), test, jump j (.edge e)]

/-- The lines that move the pointer right, around the end of a tape that wraps around. -/
def moveRightLines (config : TapeConfig) : Listing :=
  if !config.wraps then [unary .inc pointer]
  else if config.isPowerOfTwo then
    [unary .inc pointer,
      binary .and pointer (.value (.below .tapeSize 1))]
  else
    [unary .inc pointer,
      binary .xor (.register .eax) (.register .eax),
      binary .cmp pointer (.value (.name .tapeSize)),
      binary .cmove pointer (.register .rax)]

/-- The lines that move the pointer left, around the start of a tape that wraps around. -/
def moveLeftLines (config : TapeConfig) : Listing :=
  if !config.wraps then [unary .dec pointer]
  else if config.isPowerOfTwo then
    [unary .dec pointer,
      binary .and pointer (.value (.below .tapeSize 1))]
  else
    [load .eax (.name .tapeSize),
      binary .test pointer pointer,
      binary .cmovz pointer (.register .rax),
      unary .dec pointer]

/-- The code of an instruction; a loop delimiter has none. -/
def Instruction.code? (config : TapeConfig) (i : Instruction) : Option Listing :=
  match i.command with
  | .moveLeft =>
      some (checked config i (binary .test pointer pointer) .zero .pointerUnderflow
        ++ moveLeftLines config)
  | .moveRight =>
      some (checked config i (binary .cmp pointer (.value (.below .tapeSize 1))) .aboveOrEqual
        .pointerOverflow ++ moveRightLines config)
  | .increment =>
      some (checked config i (binary .cmp cell (.value (.number 255))) .equal .cellOverflow
        ++ [unary .inc cell])
  | .decrement =>
      some (checked config i (binary .cmp cell (.value (.number 0))) .equal .cellUnderflow
        ++ [unary .dec cell])
  | .output => some [.code (.call .writeCell)]
  | .input => some [.code (.call .readCell)]
  | .loopOpen | .loopClose => none

/-! ## The code of a program -/

/-- The part of a program's code that is written already. -/
structure Page where
  lines : Array Line := #[]
  /-- The number of loops entered, which is the number of the next one. -/
  loops : Nat := 0
  /-- The numbers of the loops that have not been left, innermost first. -/
  opened : List Nat := []
  deriving DecidableEq, Repr

/-- A generator: what it is set to, and the page it wrote last. -/
structure Generator where
  config : TapeConfig := {}
  annotate : Bool := false
  page : Page := {}
  deriving DecidableEq, Repr

namespace Page

/-- Write lines at the end of a page. -/
def write : Page → Listing → Page
  | ⟨lines, loops, opened⟩, more => ⟨lines ++ more, loops, opened⟩

/-- Write a comment, if comments are wanted. -/
def note (p : Page) (annotate : Bool) (c : Comment) : Page :=
  if annotate then p.write [.comment c] else p

/-- Write the test at the head of a loop. -/
def openLoop : Page → Page
  | ⟨lines, n, opened⟩ =>
      write ⟨lines, n + 1, n :: opened⟩
        [.label (.loop n), binary .cmp cell (.value (.number 0)), jump .equal (.loopEnd n)]

/-- Write the jump back at the end of the innermost loop. -/
def closeLoop : Page → Page
  | ⟨lines, loops, n :: opened⟩ =>
      write ⟨lines, loops, opened⟩ [jump .always (.loop n), .label (.loopEnd n)]
  | p => p

/-- Write the code for a walk. The walk ends early at a loop delimiter, which is then given
back. -/
def writeAll (config : TapeConfig) (annotate : Bool) :
    List Visit → Page → Page × Option Instruction
  | [], p => (p, none)
  | .instr _ i :: rest, p =>
      let p := p.note annotate (.instruction i.command i.index)
      match i.code? config with
      | none => (p, some i)
      | some code => writeAll config annotate rest (p.write code)
  | .enter _ _ openIndex closeIndex :: rest, p =>
      writeAll config annotate rest (p.note annotate (.loop openIndex closeIndex)).openLoop
  | .leave _ :: rest, p => writeAll config annotate rest p.closeLoop

end Page

namespace Generator

/-- Generate the listing of a program, or give back the loop delimiter that stands in the way. -/
def generate (g : Generator) (p : Program) : Generator × Except Instruction Listing :=
  let (page, stuck) := Page.writeAll g.config g.annotate p.body.visits {}
  let g := { g with page }
  match stuck with
  | some i => (g, .error i)
  | none =>
      (g, .ok (header g.config.length ++ page.lines.toList ++ epilogue
        ++ faultRoutines g.config ++ dataSegment g.config))

end Generator

end TapeLang
