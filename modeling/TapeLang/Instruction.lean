import TapeLang.Command

/-!
# Instructions and program text

An instruction is one occurrence of a command. Its index is its place among the instructions of a
program, which is what every fault reports; its offset is its place among the characters of the
program text. `lex` reads a text into its instructions and skips the comments between them.

A text is a sequence of Unicode scalar values, and offsets count these. Lone surrogates, which are
code points but not scalar values, are outside the model: no text here contains one.
-/

set_option autoImplicit false

namespace TapeLang

/-- One occurrence of a command. -/
structure Instruction where
  /-- What to do. -/
  command : Command
  /-- The place in the sequence of instructions. -/
  index : Int
  /-- The place in the program text, in code points. -/
  offset : Int := 0
  deriving DecidableEq, Repr

/-- The outline's text of an instruction: its symbol, index and offset. -/
def Instruction.text (i : Instruction) : String :=
  i.command.symbol.toString ++ "  # " ++ toString i.index ++ "@" ++ toString i.offset

/-! ## Reading a program text -/

/-- The commands of a sequence of characters, each with its place in that sequence. -/
def located (chars : List Char) : List (Command × Nat) :=
  chars.zipIdx.filterMap fun (c, offset) => (Command.ofSymbol? c).map (·, offset)

/-- The instructions of a program text. -/
def lex (source : String) : List Instruction :=
  (located source.toList).zipIdx.map fun ((command, offset), index) =>
    { command, index := index, offset := offset }

/-- The program text without its comments. -/
def stripComments (source : String) : String :=
  String.ofList (source.toList.filter fun c => (Command.ofSymbol? c).isSome)

/-- How often each command occurs, for the commands that occur at all. -/
def commandCounts (instructions : List Instruction) : List (Command × Nat) :=
  Command.all.filterMap fun c =>
    match instructions.countP fun i => i.command == c with
    | 0 => none
    | n => some (c, n)

end TapeLang
