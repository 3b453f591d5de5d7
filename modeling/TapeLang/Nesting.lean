import TapeLang.Body
import TapeLang.Fault

/-!
# Nesting instructions into a tree

`Program.ofInstructions` reads a sequence of instructions from left to right and pairs every loop
delimiter with its partner. It keeps the loops that are still open, innermost first, each with the
nodes that came before it. A close with no open loop ends the reading at once; loops still open at
the end are reported by the innermost of them.
-/

set_option autoImplicit false

namespace TapeLang

/-- Why a sequence of instructions is no program. -/
inductive Imbalance where
  /-- The close at this index has no loop to close. -/
  | strayClose (index : Int)
  /-- This many loops are still open at the end; the index is that of the innermost open. -/
  | leftOpen (count : Nat) (innermost : Int)
  deriving DecidableEq, Repr

/-- The fault an imbalance is reported as. -/
def Imbalance.fault : Imbalance → Fault
  | strayClose index => .unmatchedClose index
  | leftOpen _ innermost => .unmatchedOpen innermost

/-- A loop that is not closed yet. -/
structure OpenLoop where
  /-- The index of its opening delimiter. -/
  index : Int
  /-- The nodes before it in the body it stands in, last first. -/
  before : List Node
  deriving DecidableEq, Repr

/-- A partly read program. -/
structure Nesting where
  /-- The nodes read so far in the innermost body, last first. -/
  current : List Node := []
  /-- The loops that are open, innermost first. -/
  opened : List OpenLoop := []
  deriving DecidableEq, Repr

namespace Nesting

/-- Read one instruction. -/
def read (s : Nesting) (i : Instruction) : Except Imbalance Nesting :=
  match i.command with
  | .loopOpen => .ok { current := [], opened := ⟨i.index, s.current⟩ :: s.opened }
  | .loopClose =>
      match s.opened with
      | [] => .error (.strayClose i.index)
      | o :: outer =>
          .ok { current := .loop (.ofReversed s.current) o.index i.index :: o.before
                opened := outer }
  | _ => .ok { s with current := .instr i :: s.current }

/-- Read a sequence of instructions. -/
def readAll (s : Nesting) : List Instruction → Except Imbalance Nesting
  | [] => .ok s
  | i :: rest =>
      match s.read i with
      | .error e => .error e
      | .ok s' => s'.readAll rest

/-- The body that was read, if every loop is closed. -/
def finish (s : Nesting) : Except Imbalance Body :=
  match s.opened with
  | [] => .ok (.ofReversed s.current)
  | o :: outer => .error (.leftOpen (outer.length + 1) o.index)

end Nesting

/-- The program of a sequence of instructions. -/
def Program.ofInstructions (instructions : List Instruction) : Except Imbalance Program :=
  match ({} : Nesting).readAll instructions with
  | .error e => .error e
  | .ok s => s.finish.map fun body => { body, instructionCount := instructions.length }

end TapeLang
