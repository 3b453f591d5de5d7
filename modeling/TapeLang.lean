import TapeLang.Assembly.Line
import TapeLang.Assembly.Sections
import TapeLang.Body
import TapeLang.Body.Outline
import TapeLang.Body.Tour
import TapeLang.Body.Visit
import TapeLang.Command
import TapeLang.Decimal.Shortest
import TapeLang.Draft
import TapeLang.Fault
import TapeLang.Generator
import TapeLang.Instruction
import TapeLang.Journal
import TapeLang.Machine
import TapeLang.Machine.Run
import TapeLang.Mode
import TapeLang.Nesting
import TapeLang.Pipeline
import TapeLang.Pipeline.Report
import TapeLang.Proofs.Generator.Names
import TapeLang.Proofs.Generator.Scheme
import TapeLang.Proofs.Generator.Text
import TapeLang.Proofs.Machine.Edges
import TapeLang.Proofs.Machine.Lockstep
import TapeLang.Proofs.Machine.Moves
import TapeLang.Proofs.Machine.Origin
import TapeLang.Proofs.Machine.Reading
import TapeLang.Proofs.Machine.Refusal
import TapeLang.Proofs.Machine.Room
import TapeLang.Proofs.Machine.Sequence
import TapeLang.Proofs.Machine.Sightings
import TapeLang.Proofs.Machine.Structured
import TapeLang.Proofs.Native.Agreement
import TapeLang.Proofs.Native.Commands
import TapeLang.Proofs.Native.Correctness
import TapeLang.Proofs.Native.Endings
import TapeLang.Proofs.Native.Loaded
import TapeLang.Proofs.Native.Moving
import TapeLang.Proofs.Native.Operations
import TapeLang.Proofs.Native.Process
import TapeLang.Proofs.Native.Processor
import TapeLang.Proofs.Native.Reporter
import TapeLang.Proofs.Native.Simulation
import TapeLang.Proofs.Native.Streams
import TapeLang.Proofs.Nesting.Balance
import TapeLang.Proofs.Nesting.Comments
import TapeLang.Proofs.Nesting.Concatenation
import TapeLang.Proofs.Nesting.Flatten
import TapeLang.Proofs.Session.Books
import TapeLang.Proofs.Session.Concatenation
import TapeLang.Proofs.Toolchain.Comments
import TapeLang.Proofs.Toolchain.Faults
import TapeLang.Proofs.Toolchain.Readback
import TapeLang.Proofs.Toolchain.Stages
import TapeLang.Session
import TapeLang.Setting
import TapeLang.Tape
import TapeLang.Tape.Config
import TapeLang.Text.Printable
import TapeLang.Toolchain
import TapeLang.Proofs.Machine.Rotation
import TapeLang.Proofs.Machine.Replay
import TapeLang.Proofs.Toolchain.Tracing
import TapeLang.Proofs.Nesting.Counts
import TapeLang.Proofs.Toolchain.EntryPoints
import TapeLang.Proofs.Generator.Closed
import TapeLang.Proofs.Generator.History
import TapeLang.Proofs.Nesting.Statistics
import TapeLang.Proofs.Toolchain.Delimiters
import TapeLang.Proofs.Generator.Annotation
import TapeLang.Proofs.Native.Stores
import TapeLang.Proofs.Native.FaultReport
import TapeLang.Proofs.Nesting.Outline
import TapeLang.Proofs.Toolchain.StraightLine
import TapeLang.Proofs.Machine.DeadLoops
import TapeLang.Proofs.Generator.Size
import TapeLang.Proofs.Nesting.Lexing
import TapeLang.Proofs.Toolchain.Messages
import TapeLang.Proofs.Generator.Emission
import TapeLang.Proofs.Toolchain.TapeSize
import TapeLang.Proofs.Native.Masking
import TapeLang.Proofs.Generator.Quoting
