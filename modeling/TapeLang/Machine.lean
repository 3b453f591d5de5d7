import TapeLang.Instruction
import TapeLang.Tape

/-!
# Machines

A machine is a tape with the streams and counters that programs work on. Executing an instruction
has two phases: `obstacle?` decides, changing nothing, whether the instruction can be executed at
all, and if it can, `perform` executes it and cannot fail. A refused instruction therefore leaves no
trace.

Output is collected in the machine and also goes, byte by byte, to a sink if one is attached. At
the end of the input a read stores zero.
-/

set_option autoImplicit false

namespace TapeLang

/-- The counters of a machine. They go on counting from one run to the next. -/
structure Stats where
  /-- Executed instructions. -/
  steps : Nat := 0
  /-- Passes through loop bodies. -/
  loopIterations : Nat := 0
  /-- Bytes taken from the input. -/
  bytesRead : Nat := 0
  /-- Bytes put out. -/
  bytesWritten : Nat := 0
  /-- The pointer at the end of the last run that finished. -/
  finalPointer : Nat := 0
  deriving DecidableEq, Repr

/-- A tape with streams and counters. -/
structure Machine where
  tape : Tape
  /-- The input that is still to be read. -/
  input : List UInt8
  /-- Everything put out so far. -/
  output : Array UInt8 := #[]
  /-- Everything the attached sink has received, if there is a sink. -/
  sink : Option (Array UInt8) := none
  stats : Stats := {}
  deriving Repr

/-- Why an instruction cannot be executed. -/
inductive Obstacle where
  /-- The tape refuses it. -/
  | fault (f : Fault)
  /-- It is a loop delimiter, which only has a meaning outside a tree. -/
  | delimiter (i : Instruction)
  deriving DecidableEq, Repr

namespace Machine

/-- A machine with a blank tape. -/
def start (config : TapeConfig) (input : List UInt8) (hasSink : Bool) : Machine where
  tape := .blank config
  input
  sink := if hasSink then some #[] else none

/-- The reason why an instruction cannot be executed, if there is one. -/
def obstacle? (m : Machine) (i : Instruction) : Option Obstacle :=
  match i.command with
  | .moveLeft => (m.tape.moveFault? (-1) i.index).map .fault
  | .moveRight => (m.tape.moveFault? 1 i.index).map .fault
  | .increment => (m.tape.addFault? 1 i.index).map .fault
  | .decrement => (m.tape.addFault? (-1) i.index).map .fault
  | .output | .input => none
  | .loopOpen | .loopClose => some (.delimiter i)

/-! ## The effects of the commands -/

/-- Change the tape alone. -/
def onTape (f : Tape → Tape) : Machine → Machine
  | ⟨tape, input, output, sink, stats⟩ => ⟨f tape, input, output, sink, stats⟩

/-- Put out the cell under the pointer. -/
def emit : Machine → Machine
  | ⟨tape, input, output, sink, stats⟩ =>
      let byte := tape.cell
      ⟨tape, input, output.push byte, sink.map fun received => received.push byte,
        { stats with bytesWritten := stats.bytesWritten + 1 }⟩

/-- Read a byte into the cell under the pointer, or zero at the end of the input. -/
def absorb : Machine → Machine
  | ⟨tape, [], output, sink, stats⟩ => ⟨tape.put 0, [], output, sink, stats⟩
  | ⟨tape, byte :: input, output, sink, stats⟩ =>
      ⟨tape.put byte, input, output, sink, { stats with bytesRead := stats.bytesRead + 1 }⟩

/-- What a command does; a loop delimiter does nothing by itself. -/
def apply (m : Machine) : Command → Machine
  | .moveLeft => m.onTape fun t => t.shift (-1)
  | .moveRight => m.onTape fun t => t.shift 1
  | .increment => m.onTape fun t => t.bump 1
  | .decrement => m.onTape fun t => t.bump (-1)
  | .output => m.emit
  | .input => m.absorb
  | .loopOpen | .loopClose => m

/-- Change the counters alone. -/
def onStats (f : Stats → Stats) : Machine → Machine
  | ⟨tape, input, output, sink, stats⟩ => ⟨tape, input, output, sink, f stats⟩

/-- Execute an instruction and count it. -/
def perform (m : Machine) (i : Instruction) : Machine :=
  (m.apply i.command).onStats fun s => { s with steps := s.steps + 1 }

/-- Count a pass through a loop body. -/
def iterate (m : Machine) : Machine :=
  m.onStats fun s => { s with loopIterations := s.loopIterations + 1 }

/-- Note where the pointer stands. -/
def settle (m : Machine) : Machine :=
  let pointer := m.tape.pointer
  m.onStats fun s => { s with finalPointer := pointer }

end Machine

end TapeLang
