import TapeLang.Body.Outline
import TapeLang.Journal

/-!
# Pipeline reports

The sizes and times of a pipeline's stages, and the table that shows them. The texts of the table
are set flush left or flush right in columns of a given width, counted in code points. A text that
is wider than its column is kept whole.
-/

set_option autoImplicit false

namespace TapeLang

namespace Text

/-- Set a text flush left. -/
def flushLeft (width : Nat) (text : String) : String :=
  text ++ repeated (width - text.length) " "

/-- Set a text flush right. -/
def flushRight (width : Nat) (text : String) : String :=
  repeated (width - text.length) " " ++ text

end Text

/-- The sizes and times of a pipeline's stages. -/
structure PipelineStats where
  sourceBytes : Int := 0
  sourceLines : Int := 0
  mode : String := ""
  policy : String := ""
  lexTime : Ticks := 0
  resolveTime : Ticks := 0
  backendTime : Ticks := 0
  totalTime : Ticks := 0
  instructionCount : Int := 0
  loopCount : Int := 0
  maxDepth : Int := 0
  assemblyLines : Int := 0
  executionSteps : Int := 0
  bytesWritten : Int := 0
  deriving DecidableEq, Repr

namespace PipelineStats

open Text

/-- A time in its column. -/
def timeText (t : Ticks) : String :=
  flushRight 8 t.milliseconds ++ "ms"

/-- A row of the table: a stage, its time and what it put out. -/
def row (stage time output : String) : String :=
  "  " ++ flushLeft 20 stage ++ " " ++ flushRight 10 time ++ "  " ++ flushRight 30 output

/-- A rule across the table. -/
def rule : String :=
  row (repeated 20 "─") (repeated 10 "─") (repeated 30 "─")

/-- The row of the back end. -/
def backendRow (s : PipelineStats) : String :=
  let time := timeText s.backendTime
  if s.mode = "compile" then
    row "Generate code" time (toString s.assemblyLines ++ " assembly lines")
  else
    row "Interpret" time
      (toString s.executionSteps ++ " steps, " ++ toString s.bytesWritten ++ " bytes out")

/-- The report on a pipeline. -/
def report (s : PipelineStats) : String :=
  "\n".intercalate
    ["═══ Pipeline Statistics ═══",
      "  Source: " ++ toString s.sourceLines ++ " lines, " ++ toString s.sourceBytes
        ++ " bytes (" ++ s.mode ++ ", " ++ s.policy ++ ")",
      "",
      row "Stage" "Time" "Output",
      rule,
      row "Lex" (timeText s.lexTime) (toString s.instructionCount ++ " instructions"),
      row "Resolve" (timeText s.resolveTime)
        (toString s.loopCount ++ " loops, depth " ++ toString s.maxDepth),
      s.backendRow,
      rule,
      "  " ++ flushLeft 20 "Total" ++ " " ++ timeText s.totalTime]

end PipelineStats

end TapeLang
