import TapeLang.Pipeline.Report
import TapeLang.Toolchain

/-!
# The pipeline

`Pipeline.run` takes a program text all the way through one of the two back ends and measures the
stages on the way. If asked to, it prints the outline of the program before the back end starts,
and the report at the end.
-/

set_option autoImplicit false

namespace TapeLang

/-- The number of newlines of a text. -/
def newlines (text : String) : Nat :=
  text.toList.count '\n'

/-- The number of lines of a text; the last line need not be ended by a newline. -/
def lineCount (text : String) : Nat :=
  newlines text + if text.toList.getLastD '\n' = '\n' then 0 else 1

/-- A clock is the list of its readings. It stands still after the last one, and a clock without
readings stands at zero. -/
structure Clock where
  readings : List Ticks := []
  deriving DecidableEq, Repr

/-- The reading with number `n`, counted from zero. -/
def Clock.reading (c : Clock) (n : Nat) : Ticks :=
  c.readings.getD n (c.readings.getLastD 0)

/-- The time from one reading to another. -/
def Clock.span (c : Clock) (first last : Nat) : Ticks :=
  c.reading last - c.reading first

/-- A request to the pipeline. -/
structure Pipeline where
  source : String
  mode : Setting := .text "interpret"
  config : TapeConfig := {}
  input : List UInt8 := []
  /-- Whether a sink receives what is put out. -/
  hasSink : Bool := false
  annotate : Bool := false
  verbose : Bool := false
  clock : Clock := {}

/-- The result of a pipeline that went through. The back end of the mode sets what it came to and
leaves the rest as it is here. -/
structure PipelineResult where
  mode : Mode
  /-- What the program put out. -/
  output : Array UInt8 := #[]
  /-- The text of the listing. -/
  listing : String := ""
  /-- The counters of the run, if there was one. -/
  stats : Option Stats := none
  pipeline : PipelineStats
  deriving DecidableEq, Repr

/-- What a pipeline came to. -/
structure PipelineRun where
  result : Except Failure PipelineResult
  /-- The machine the program ran on, which is fresh if it did not run. -/
  machine : Machine
  /-- Everything that was printed. -/
  printed : String := ""

namespace Pipeline

/-- What is known about the source before any work is done. -/
def initialStats (p : Pipeline) (mode : Mode) : PipelineStats where
  sourceBytes := p.source.utf8ByteSize
  sourceLines := lineCount p.source
  mode := mode.word
  policy := p.config.policy.word

/-- The outline as it is printed. -/
def printedOutline (program : Program) : String :=
  "═══ Program ═══\n" ++ program.outline ++ "\n\n"

/-- The back end: its result, whose times are not taken yet, and the machine it leaves. -/
def backend (p : Pipeline) (fuel : Nat) (mode : Mode) (program : Program) (m : Machine)
    (stats : PipelineStats) : Logged (Except Failure PipelineResult × Machine) :=
  match mode with
  | .compile => do
      let (_, result) ←
        Generator.generateLogged { config := p.config, annotate := p.annotate } program
      match result with
      | .error i => return (.error (.delimiter i), m)
      | .ok listing =>
          let text := listing.text
          let pipeline := { stats with assemblyLines := newlines text }
          return (.ok { mode, listing := text, pipeline }, m)
  | .interpret => do
      let r ← m.runLogged .idle () fuel program
      match r.ending.failure? with
      | some failure => return (.error failure, r.machine)
      | none =>
          let counts := r.machine.stats
          let pipeline := { stats with
            executionSteps := counts.steps, bytesWritten := counts.bytesWritten }
          let output := r.machine.output
          return (.ok { mode, output, stats := some counts, pipeline }, r.machine)

/-- Take a program text through the pipeline. The clock is read when the pipeline starts, around
the reading, the nesting and the back end, and at the end. -/
def run (p : Pipeline) (fuel : Nat) : Logged PipelineRun := do
  let m := Machine.start p.config p.input p.hasSink
  match Mode.ofSetting? p.mode with
  | none => return { result := .error (.unknownMode p.mode), machine := m }
  | some mode =>
      match ← parse p.source with
      | .error f => return { result := .error (.fault f), machine := m }
      | .ok program =>
          let stats := { p.initialStats mode with
            lexTime := p.clock.span 1 2
            resolveTime := p.clock.span 3 4
            instructionCount := program.instructionCount
            loopCount := program.loopCount
            maxDepth := program.maxDepth }
          Logged.note (.nested stats.instructionCount program.loopCount
            (stats.lexTime + stats.resolveTime))
          let printed := if p.verbose then printedOutline program else ""
          let (result, machine) ← p.backend fuel mode program m stats
          match result with
          | .error failure => return { result := .error failure, machine, printed }
          | .ok result =>
              let pipeline := { result.pipeline with
                backendTime := p.clock.span 5 6
                totalTime := p.clock.span 0 7 }
              Logged.note (.completed mode pipeline.totalTime)
              let printed := if p.verbose then printed ++ pipeline.report ++ "\n" else printed
              return { result := .ok { result with pipeline }, machine, printed }

end Pipeline

end TapeLang
