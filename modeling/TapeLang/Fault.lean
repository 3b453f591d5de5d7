/-!
# Faults

Everything that can be wrong with a program, or go wrong while it runs, is a fault at an
instruction. Structural faults are unbalanced loop delimiters; tape faults are moves and cell
changes past an edge of the tape, and also name the pointer before the refused operation.

`Fault.Kind` arranges the kinds of faults by generality, and `Kind.build?` makes a fault of any
kind, also of the three kinds that only classify others.
-/

set_option autoImplicit false

namespace TapeLang

/-- The four edges a bounded tape has: two of the pointer's range and two of a cell's range. -/
inductive Edge where
  | pointerUnderflow
  | pointerOverflow
  | cellUnderflow
  | cellOverflow
  deriving DecidableEq, Repr

namespace Edge

/-- Every edge, in the order of its declaration. -/
def all : List Edge :=
  [pointerUnderflow, pointerOverflow, cellUnderflow, cellOverflow]

/-- What happened at the edge. -/
def description : Edge → String
  | pointerUnderflow => "pointer moved below zero"
  | pointerOverflow => "pointer moved past upper bound"
  | cellUnderflow => "cell decremented below zero"
  | cellOverflow => "cell incremented past 255"

end Edge

/-- A fault at the instruction with the given index. -/
inductive Fault where
  /-- A fault that is not classified further. -/
  | general (index : Int)
  /-- A structural fault that is not classified further. -/
  | structural (index : Int)
  /-- A loop that is opened and never closed. -/
  | unmatchedOpen (index : Int)
  /-- A loop that is closed and was never opened. -/
  | unmatchedClose (index : Int)
  /-- A tape fault that is not classified further. -/
  | tape (index pointer : Int)
  /-- An operation past an edge of the tape. -/
  | edge (e : Edge) (index pointer : Int)
  deriving DecidableEq, Repr

namespace Fault

/-- The instruction that is at fault. -/
def index : Fault → Int
  | general i | structural i | unmatchedOpen i | unmatchedClose i | tape i _ | edge _ i _ => i

/-- The pointer before the refused operation; tape faults alone have one. -/
def pointer? : Fault → Option Int
  | tape _ p | edge _ _ p => some p
  | general _ | structural _ | unmatchedOpen _ | unmatchedClose _ => none

/-- What is wrong, without the place. -/
def description : Fault → String
  | general _ | structural _ | tape .. => "fault"
  | unmatchedOpen _ => "unmatched loop-open"
  | unmatchedClose _ => "unmatched loop-close"
  | edge e .. => e.description

/-- The text shown for a fault. -/
def message (f : Fault) : String :=
  let text := f.description ++ " at instruction " ++ toString f.index
  match f with
  | unmatchedOpen _ => text ++ ": no corresponding loop-close found"
  | _ => text

/-! ## Kinds -/

/-- The kinds of faults. -/
inductive Kind where
  | general
  | structural
  | unmatchedOpen
  | unmatchedClose
  | tape
  | edge (e : Edge)
  deriving DecidableEq, Repr

namespace Kind

/-- Every kind, each after the kind it specializes. -/
def all : List Kind :=
  [general, structural, unmatchedOpen, unmatchedClose, tape] ++ Edge.all.map edge

/-- Whether every fault of kind `k` is also a fault of kind `k'`. -/
def specializes (k k' : Kind) : Bool :=
  k == k' ||
    match k', k with
    | general, _ => true
    | structural, unmatchedOpen | structural, unmatchedClose => true
    | tape, edge _ => true
    | _, _ => false

/-- A fault of kind `k`. A pointer is required for tape faults and refused for all others. -/
def build? (k : Kind) (index : Int) (pointer : Option Int) : Option Fault :=
  match k, pointer with
  | general, none => some (.general index)
  | structural, none => some (.structural index)
  | unmatchedOpen, none => some (.unmatchedOpen index)
  | unmatchedClose, none => some (.unmatchedClose index)
  | tape, some p => some (.tape index p)
  | edge e, some p => some (.edge e index p)
  | _, _ => none

end Kind

/-- The most special kind of a fault. -/
def kind : Fault → Kind
  | general _ => .general
  | structural _ => .structural
  | unmatchedOpen _ => .unmatchedOpen
  | unmatchedClose _ => .unmatchedClose
  | tape .. => .tape
  | edge e .. => .edge e

/-- Every kind a fault belongs to. -/
def kinds (f : Fault) : List Kind :=
  Kind.all.filter f.kind.specializes

end Fault

end TapeLang
