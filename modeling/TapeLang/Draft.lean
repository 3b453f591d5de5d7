import TapeLang.Body
import TapeLang.Setting

/-!
# Drafts

A draft is a tree whose fields are settings nobody has checked. Checking it yields a body, or the
list of everything that is wrong with the first node that is malformed. The contents of a loop are
checked before the loop itself.
-/

set_option autoImplicit false

namespace TapeLang

/-- What can be wrong with a field. -/
inductive FieldProblem where
  /-- A required field is absent. -/
  | missing
  /-- A command is called for. -/
  | notCommand
  /-- An integer is called for. -/
  | notInteger
  /-- A text that does not read as an integer. -/
  | notNumeral
  /-- A number with a fraction. -/
  | notWhole
  deriving DecidableEq, Repr

/-- A problem with a named field. -/
structure FieldError where
  field : String
  problem : FieldProblem
  deriving DecidableEq, Repr

/-! ## Reading a field -/

/-- The integer a floating-point number is equal to, if it is equal to one. -/
def Decimal.Parts.integer? : Decimal.Parts → Option Int
  | .nan | .infinity _ => none
  | .zero _ => some 0
  | .finite negative b =>
      let (num, den) := Decimal.power 2 b.exponent
      let value := b.mantissa * num
      if value % den = 0 then
        some (if negative then -((value / den : Nat) : Int) else ((value / den : Nat) : Int))
      else none

/-- The natural number that a sequence of digits writes. -/
def numeral? (digits : List Char) : Option Nat :=
  if digits.isEmpty || digits.any (!·.isDigit) then none
  else some (digits.foldl (fun n c => 10 * n + (c.toNat - '0'.toNat)) 0)

/-- The integer that a text writes, with or without a sign. -/
def integer? (text : String) : Option Int :=
  match text.toList with
  | '-' :: digits => (numeral? digits).map fun n => -(n : Int)
  | '+' :: digits => (numeral? digits).map Int.ofNat
  | digits => (numeral? digits).map Int.ofNat

/-- Read an integer. Truth values, whole numbers and numerals count as integers. -/
def Setting.toInteger : Setting → Except FieldProblem Int
  | .integer n => .ok n
  | .truth b => .ok b.toInt
  | .real x =>
      match (Decimal.Parts.ofFloat x).integer? with
      | some n => .ok n
      | none => .error .notWhole
  | .text s =>
      match TapeLang.integer? s with
      | some n => .ok n
      | none => .error .notNumeral
  | _ => .error .notInteger

/-- Read a command from its symbol. -/
def Setting.toCommand : Setting → Except FieldProblem Command
  | .text s =>
      match s.toList with
      | [c] => (Command.ofSymbol? c).elim (.error .notCommand) .ok
      | _ => .error .notCommand
  | _ => .error .notCommand

/-- Read a field; an absent one has its default, or is missing. -/
def readField {α : Type} (field : String) (read : Setting → Except FieldProblem α)
    (default : Option α) : Option Setting → Except FieldError α
  | none => default.elim (.error ⟨field, .missing⟩) .ok
  | some s => (read s).mapError fun problem => ⟨field, problem⟩

/-- The error of a field, if it has one. -/
def fieldErrors {α : Type} : Except FieldError α → List FieldError
  | .ok _ => []
  | .error e => [e]

/-! ## Checking -/

/-- The unchecked fields of an instruction. -/
structure InstructionDraft where
  command : Option Setting
  index : Option Setting
  offset : Option Setting

/-- Check an instruction; the offset may be left out. -/
def InstructionDraft.check (d : InstructionDraft) : Except (List FieldError) Instruction :=
  let command := readField "op" Setting.toCommand none d.command
  let index := readField "index" Setting.toInteger none d.index
  let offset := readField "offset" Setting.toInteger (some 0) d.offset
  match command, index, offset with
  | .ok command, .ok index, .ok offset => .ok { command, index, offset }
  | _, _, _ => .error (fieldErrors command ++ fieldErrors index ++ fieldErrors offset)

/-- An unchecked tree, in the shape of a body. -/
inductive Draft where
  | nil
  | instr (d : InstructionDraft) (rest : Draft)
  | loop (inner : Draft) (openIndex closeIndex : Option Setting) (rest : Draft)
  deriving Inhabited

namespace Draft

/-- Check the two indices of a loop. -/
def checkIndices (openIndex closeIndex : Option Setting) :
    Except (List FieldError) (Int × Int) :=
  let openIndex := readField "open_index" Setting.toInteger none openIndex
  let closeIndex := readField "close_index" Setting.toInteger none closeIndex
  match openIndex, closeIndex with
  | .ok first, .ok last => .ok (first, last)
  | _, _ => .error (fieldErrors openIndex ++ fieldErrors closeIndex)

/-- Check a tree, node by node. -/
def check : Draft → Except (List FieldError) Body
  | nil => .ok .nil
  | instr d rest => do
      let i ← d.check
      return .instr i (← rest.check)
  | loop inner openIndex closeIndex rest => do
      let inner ← inner.check
      let (first, last) ← checkIndices openIndex closeIndex
      return .loop inner first last (← rest.check)

end Draft

/-- Check a whole program; the number of instructions may be left out. -/
def Program.ofDraft (draft : Draft) (instructionCount : Option Setting) :
    Except (List FieldError) Program := do
  let body ← draft.check
  match readField "instruction_count" Setting.toInteger (some 0) instructionCount with
  | .ok instructionCount => return { body, instructionCount }
  | .error e => .error [e]

end TapeLang
