import TapeLang.Body.Outline
import TapeLang.Generator
import TapeLang.Journal
import TapeLang.Machine.Run

/-!
# The toolchain

From program text to results: `parse` nests the instructions of a text, `interpret` and `trace`
run it on a fresh machine, `executeTraced` numbers the steps of a trace, and `compile` generates a
listing. Each notes its events.
-/

set_option autoImplicit false

namespace TapeLang

/-- Why there is no result. -/
inductive Failure where
  /-- The program is unbalanced, or went past an edge of the tape. -/
  | fault (f : Fault)
  /-- A loop delimiter stands inside a tree. -/
  | delimiter (i : Instruction)
  /-- The watcher called a halt. -/
  | halted
  /-- The permitted number of moves was used up. -/
  | outOfFuel
  /-- The tape configuration is refused. -/
  | config (e : ConfigError)
  /-- There is no such mode. -/
  | unknownMode (given : Setting)

/-- The failure a run ended in, if it did not finish. -/
def Ending.failure? : Ending → Option Failure
  | finished => none
  | blocked (.fault f) => some (.fault f)
  | blocked (.delimiter i) => some (.delimiter i)
  | halted => some .halted
  | outOfFuel => some .outOfFuel

/-! ## Logged stages -/

/-- The instructions of a program text. -/
def lexLogged (source : String) : Logged (List Instruction) := do
  let instructions := lex source
  Logged.note (.lexed instructions.length source.length)
  return instructions

/-- The program of a sequence of instructions. -/
def nestLogged (instructions : List Instruction) : Logged (Except Fault Program) := do
  match Program.ofInstructions instructions with
  | .ok p => return .ok p
  | .error e =>
      Logged.note e.event
      return .error e.fault

/-- The program of a text. -/
def parse (source : String) : Logged (Except Fault Program) := do
  nestLogged (← lexLogged source)

/-- Run a program on a machine as it stands. -/
def Machine.runLogged {σ : Type} (watcher : Watcher σ) (watched : σ) (fuel : Nat) (p : Program)
    (m : Machine) : Logged (Run σ) := do
  let config := m.tape.config
  Logged.note (.interpreting p.instructionCount config.policy config.length.cells)
  let r := m.run watcher watched fuel p
  match r.ending with
  | .finished => Logged.note (.interpreted r.machine.stats.steps r.machine.stats.bytesWritten)
  | .blocked (.fault f) => Logged.note? f.event?
  | _ => pure ()
  return r

/-- Generate the listing of a program. -/
def Generator.generateLogged (g : Generator) (p : Program) :
    Logged (Generator × Except Instruction Assembly.Listing) := do
  let (g, result) := g.generate p
  match result with
  | .ok _ => Logged.note (.generated g.page.lines.size g.page.loops g.config.policy)
  | .error _ => pure ()
  return (g, result)

/-! ## From text to results -/

/-- What running a text came to. Output and counters are those of the machine, which is fresh if
the text is no program. -/
structure Interpretation (σ : Type) where
  failure : Option Failure
  machine : Machine
  watched : σ

/-- Run a program text on a fresh machine under the eyes of a watcher. -/
def interpretWatched {σ : Type} (watcher : Watcher σ) (watched : σ) (fuel : Nat)
    (source : String) (config : TapeConfig) (input : List UInt8) (hasSink : Bool) :
    Logged (Interpretation σ) := do
  let m := Machine.start config input hasSink
  match ← parse source with
  | .error f => return ⟨some (.fault f), m, watched⟩
  | .ok p =>
      let r ← m.runLogged watcher watched fuel p
      return ⟨r.ending.failure?, r.machine, r.watched⟩

/-- Run a program text on a fresh machine. -/
def interpret (fuel : Nat) (source : String) (config : TapeConfig) (input : List UInt8)
    (hasSink : Bool) : Logged (Interpretation Unit) :=
  interpretWatched .idle () fuel source config input hasSink

/-- Run a program text on a fresh machine and record every executed instruction. -/
def trace (fuel : Nat) (source : String) (config : TapeConfig) (input : List UInt8) :
    Logged (Interpretation (Array Sighting)) := do
  Logged.note (.tracing config.policy config.length.cells)
  interpretWatched (.recording none) #[] fuel source config input false

/-- One executed instruction of a trace, with its number. -/
structure TraceStep extends Sighting where
  index : Nat
  deriving DecidableEq, Repr

/-- The trace of a run that finished. -/
structure ExecutionTrace where
  steps : List TraceStep
  stats : Stats
  output : Array UInt8
  deriving DecidableEq, Repr

/-- Sightings in the order in which they were made, numbered from zero. -/
def numbered (seen : Array Sighting) : List TraceStep :=
  seen.toList.zipIdx.map fun (s, index) => { s with index }

/-- The trace of a program text. A run that does not finish leaves no trace behind. -/
def executeTraced (fuel : Nat) (source : String) (config : TapeConfig) (input : List UInt8) :
    Logged (Except Failure ExecutionTrace) := do
  let r ← trace fuel source config input
  match r.failure with
  | some failure => return .error failure
  | none =>
      return .ok
        { steps := numbered r.watched, stats := r.machine.stats, output := r.machine.output }

/-- Generate the listing of a program text with a generator. -/
def Generator.compile (g : Generator) (source : String) :
    Logged (Generator × Except Failure Assembly.Listing) := do
  match ← parse source with
  | .error f => return (g, .error (.fault f))
  | .ok p =>
      let (g, result) ← g.generateLogged p
      return (g, result.mapError .delimiter)

/-- Generate the listing of a program text. -/
def compile (source : String) (config : TapeConfig) (annotate : Bool) :
    Logged (Except Failure Assembly.Listing) := do
  Logged.note (.compiling config.policy config.length.cells)
  let (_, result) ← Generator.compile { config, annotate } source
  return result

/-- The outline of a program text. -/
def dump (indent : Option String) (source : String) : Logged (Except Fault String) := do
  let result ← parse source
  return result.map fun p =>
    match indent with
    | none => p.outline
    | some indent => p.outlineWith indent

/-- How often each command occurs in a program text. -/
def countCommands (source : String) : Logged (List (Command × Nat)) := do
  return commandCounts (← lexLogged source)

/-! ## A generator in use -/

/-- A request to a generator: changes to what it is set to, and a text to compile. -/
structure Order where
  annotate : Option Bool
  config : Option (Except ConfigError TapeConfig)
  source : String

/-- Carry out a request. The changes last, also if the request fails later on. -/
def Generator.serve (g : Generator) (order : Order) :
    Logged (Generator × Except Failure Assembly.Listing) :=
  let g := { g with annotate := order.annotate.getD g.annotate }
  match order.config with
  | none => g.compile order.source
  | some (.ok config) => { g with config }.compile order.source
  | some (.error e) => return (g, .error (.config e))

end TapeLang
