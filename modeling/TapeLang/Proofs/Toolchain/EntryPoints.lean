import TapeLang.Pipeline
import TapeLang.Proofs.Nesting.Counts
import TapeLang.Proofs.Session.Books
import TapeLang.Proofs.Toolchain.Tracing

/-!
# The entry points agree

A text can be interpreted, traced, compiled and dumped by a stage of its own, or be taken through
the pipeline in one of its modes. The pipeline has its own sequence of stages, its own counts and a
clock, and comes to the same: a text that is no program is refused by all with the same fault before
anything has happened, and a text that is a program is interpreted and compiled alike
(`entry_points_agree`).
-/

set_option autoImplicit false

namespace TapeLang

/-! ## Texts that are no programs -/

section Refused

variable {source : String} {f : Fault}

theorem value_executeTraced_of_error (h : (parse source).value = .error f) (fuel : Nat)
    (config : TapeConfig) (input : List UInt8) :
    (executeTraced fuel source config input).value = .error (.fault f) := by
  rw [value_executeTraced, value_trace, value_interpretWatched_of_error _ _ _ h]
  rfl

theorem value_compile_of_error (h : (parse source).value = .error f) (config : TapeConfig)
    (annotate : Bool) : (compile source config annotate).value = .error (.fault f) := by
  simp only [compile, Generator.compile, Logged.value_bind, h]
  rfl

theorem value_dump_of_error (h : (parse source).value = .error f) (indent : Option String) :
    (dump indent source).value = .error f := by
  simp only [dump, Logged.value_bind, h]
  rfl

end Refused

/-- A text is no program because of a loop that is not closed, or not opened. -/
theorem unmatched_of_nestLogged {xs : List Instruction} {f : Fault}
    (h : (nestLogged xs).value = .error f) :
    ∃ index, f = .unmatchedOpen index ∨ f = .unmatchedClose index := by
  rw [nestLogged_value] at h
  cases hp : Program.ofInstructions xs with
  | ok p =>
      rw [hp] at h
      cases h
  | error e =>
      rw [hp] at h
      obtain rfl : e.fault = f := Except.error.inj h
      cases e with
      | strayClose index => exact ⟨index, .inr rfl⟩
      | leftOpen count innermost => exact ⟨innermost, .inl rfl⟩

/-- Every byte that a program puts out is counted, whether or not a sink receives it. -/
theorem Machine.bytesWritten_run (config : TapeConfig) (input : List UInt8) (hasSink : Bool)
    (fuel : Nat) (p : Program) :
    ((start config input hasSink).run .idle () fuel p).machine.stats.bytesWritten =
      ((start config input hasSink).run .idle () fuel p).machine.output.size := by
  have hbooks := ((sound_start config input).run .idle () fuel p).1.bytesWritten
  cases hasSink with
  | true => exact hbooks
  | false =>
      have hstart : (start config input true).withoutSink = start config input false := rfl
      rw [← hstart, run_withoutSink]
      exact hbooks

/-! ## The pipeline -/

/-- Every mode has its word. -/
theorem Mode.ofSetting?_word (mode : Mode) : ofSetting? (.text mode.word) = some mode := by
  cases mode <;> rfl

namespace Pipeline

/-- The same request in a mode. -/
def inMode (r : Pipeline) (mode : Mode) : Pipeline :=
  { r with mode := .text mode.word }

/-- What is known about a program when the back end starts. -/
def programStats (r : Pipeline) (mode : Mode) (p : Program) : PipelineStats :=
  { r.initialStats mode with
    lexTime := r.clock.span 1 2
    resolveTime := r.clock.span 3 4
    instructionCount := p.instructionCount
    loopCount := p.loopCount
    maxDepth := p.maxDepth }

/-- The result of a back end, with the times that are taken after it. -/
def timed (r : Pipeline) (x : PipelineResult) : PipelineResult :=
  { x with pipeline := { x.pipeline with
      backendTime := r.clock.span 5 6, totalTime := r.clock.span 0 7 } }

variable {r : Pipeline} {p : Program}

theorem value_run_of_error {mode : Mode} (hmode : Mode.ofSetting? r.mode = some mode) {f : Fault}
    (h : (parse r.source).value = .error f) (fuel : Nat) :
    (r.run fuel).value =
      { result := .error (.fault f), machine := .start r.config r.input r.hasSink } := by
  simp only [run, hmode, Logged.value_bind, h]
  rfl

/-- A program goes through the back end of the mode. -/
theorem value_run_of_ok {mode : Mode} (hmode : Mode.ofSetting? r.mode = some mode)
    (h : (parse r.source).value = .ok p) {fuel : Nat} {result : Except Failure PipelineResult}
    {m : Machine} (hbackend : (r.backend fuel mode p (.start r.config r.input r.hasSink)
      (r.programStats mode p)).value = (result, m)) :
    (r.run fuel).value.result = result.map r.timed ∧ (r.run fuel).value.machine = m := by
  simp only [programStats] at hbackend
  simp only [run, hmode, Logged.value_bind, h, hbackend]
  cases result with
  | error failure => exact ⟨rfl, rfl⟩
  | ok success => exact ⟨rfl, rfl⟩

/-- The result of a compilation that came to a listing. -/
def compiledResult (stats : PipelineStats) (listing : String) : PipelineResult where
  mode := .compile
  listing := listing
  pipeline := { stats with assemblyLines := newlines listing }

/-- The back end that compiles sets the listing and leaves the machine alone. -/
theorem value_backend_compile (r : Pipeline) (hp : p.body.DelimiterFree) (fuel : Nat) (m : Machine)
    (stats : PipelineStats) :
    (r.backend fuel .compile p m stats).value =
      (.ok (compiledResult stats (listingOf r.config r.annotate p.body).text), m) := by
  have hlisting := Generator.generate_eq { config := r.config, annotate := r.annotate } hp
  generalize hresult : Generator.generate { config := r.config, annotate := r.annotate } p = result
    at hlisting
  obtain ⟨g, listing⟩ := result
  obtain rfl : listing = _ := hlisting
  simp only [backend, Generator.generateLogged, hresult]
  rfl

/-- The result of a run that left an output and counters. -/
def ranResult (stats : PipelineStats) (x : Array UInt8 × Stats) : PipelineResult where
  mode := .interpret
  output := x.1
  stats := some x.2
  pipeline := { stats with executionSteps := x.2.steps, bytesWritten := x.2.bytesWritten }

/-- The back end that interprets runs the program, and sets its output and counters. -/
theorem value_backend_interpret (r : Pipeline) (fuel : Nat) (m : Machine) (stats : PipelineStats) :
    (r.backend fuel .interpret p m stats).value =
      ((m.run .idle () fuel p).interpretation.result.map (ranResult stats),
        (m.run .idle () fuel p).machine) := by
  simp only [backend, Logged.value_bind, Machine.value_runLogged]
  generalize m.run .idle () fuel p = run
  obtain ⟨ending, machine, _⟩ := run
  simp only [Run.interpretation, Interpretation.result]
  cases ending.failure? <;> rfl

end Pipeline

/-! ## Agreement -/

/-- The sizes that the pipeline reports: what the table of commands says of the text, and what the
back end came to. -/
structure PipelineStats.Sizes (s : PipelineStats) (source : String) (steps bytes lines : Nat) :
    Prop where
  instructionCount : s.instructionCount = total (countCommands source).value
  loopCount : s.loopCount = (((countCommands source).value.lookup .loopOpen).getD 0 : Nat)
  executionSteps : s.executionSteps = steps
  bytesWritten : s.bytesWritten = bytes
  assemblyLines : s.assemblyLines = lines

namespace Pipeline

/-- Every entry point refuses the text of a request with the same fault. Nothing was read by then,
put out or printed. -/
structure Refuses (r : Pipeline) (f : Fault) : Prop where
  pipeline : ∀ mode fuel, ((r.inMode mode).run fuel).value =
    { result := .error (.fault f), machine := .start r.config r.input r.hasSink }
  interpret : ∀ fuel hasSink, (interpret fuel r.source r.config r.input hasSink).value =
    ⟨some (.fault f), .start r.config r.input hasSink, ()⟩
  trace : ∀ fuel, (trace fuel r.source r.config r.input).value =
    ⟨some (.fault f), .start r.config r.input false, #[]⟩
  executeTraced : ∀ fuel, (executeTraced fuel r.source r.config r.input).value = .error (.fault f)
  compile : (compile r.source r.config r.annotate).value = .error (.fault f)
  dump : ∀ indent, (dump indent r.source).value = .error f

/-- The pipeline interprets the text of a request as it is interpreted alone, with a sink if the
request has one. The machine that is left behind is the same, with its sink and the input that is
left. -/
structure Interprets (r : Pipeline) (fuel : Nat) : Prop where
  machine : ((r.inMode .interpret).run fuel).value.machine =
    (interpret fuel r.source r.config r.input r.hasSink).value.machine
  /-- Both return the same output and the same counters, or both fail in the same way. -/
  result : ((r.inMode .interpret).run fuel).value.result.map (fun x => (x.output, x.stats)) =
    (interpret fuel r.source r.config r.input r.hasSink).value.result.map
      fun x => (x.1, some x.2)
  sizes : ∀ result, ((r.inMode .interpret).run fuel).value.result = .ok result →
    result.mode = .interpret ∧ result.listing = "" ∧ ∃ counts, result.stats = some counts ∧
      result.pipeline.Sizes r.source counts.steps result.output.size 0

/-- The pipeline compiles the text of a request as it is compiled alone, and leaves the machine
untouched. The result has a listing, no output and no counters. -/
structure Compiles (r : Pipeline) (fuel : Nat) : Prop where
  machine : ((r.inMode .compile).run fuel).value.machine = .start r.config r.input r.hasSink
  result : ∃ listing pipeline, (compile r.source r.config r.annotate).value = .ok listing ∧
    ((r.inMode .compile).run fuel).value.result = .ok
      { mode := .compile, output := #[], listing := listing.text, stats := none, pipeline } ∧
    pipeline.Sizes r.source 0 0 (newlines listing.text)

variable {r : Pipeline}

theorem refuses_of_parse {f : Fault} (h : (parse r.source).value = .error f) : r.Refuses f where
  pipeline mode fuel := value_run_of_error (r := r.inMode mode) mode.ofSetting?_word h fuel
  interpret fuel hasSink := value_interpretWatched_of_error .idle () fuel h _ _ hasSink
  trace fuel := by
    rw [value_trace]
    exact value_interpretWatched_of_error (.recording none) #[] fuel h _ _ false
  executeTraced fuel := value_executeTraced_of_error h fuel _ _
  compile := value_compile_of_error h _ _
  dump indent := value_dump_of_error h indent

/-- The front end counts as the table of commands does. -/
theorem counts_of_parse {p : Program} (h : (parse r.source).value = .ok p) :
    p.instructionCount = total (countCommands r.source).value ∧
      p.loopCount = ((countCommands r.source).value.lookup .loopOpen).getD 0 := by
  have hnest : (nestLogged (lex r.source)).value = .ok p := parse_value r.source ▸ h
  rw [value_countCommands, total_commandCounts]
  exact ⟨(flatten_of_nestLogged hnest).2.1, loopCount_of_nestLogged hnest⟩

/-- What is known about a program stays known when the back end adds what it came to. -/
theorem sizes_timed {p : Program} (h : (parse r.source).value = .ok p) (mode : Mode)
    {x : PipelineResult} {steps bytes lines : Nat}
    (hx : x.pipeline = { r.programStats mode p with
      executionSteps := steps, bytesWritten := bytes, assemblyLines := lines }) :
    (r.timed x).pipeline.Sizes r.source steps bytes lines := by
  obtain ⟨hinstructions, hloops⟩ := counts_of_parse h
  rw [timed, hx]
  exact ⟨hinstructions, congrArg Nat.cast hloops, rfl, rfl, rfl⟩

theorem interprets_of_parse {p : Program} (h : (parse r.source).value = .ok p) (fuel : Nat) :
    r.Interprets fuel := by
  have hbackend := value_backend_interpret (p := p) (r.inMode .interpret) fuel
    (.start r.config r.input r.hasSink) ((r.inMode .interpret).programStats .interpret p)
  have hinterpret : (interpret fuel r.source r.config r.input r.hasSink).value =
      ((Machine.start r.config r.input r.hasSink).run .idle () fuel p).interpretation :=
    value_interpretWatched_of_ok _ _ _ h _ _ _
  have hbooks := Machine.bytesWritten_run r.config r.input r.hasSink fuel p
  -- both sides are read off this run, whatever it is
  generalize (Machine.start r.config r.input r.hasSink).run .idle () fuel p = run
    at hbackend hinterpret hbooks
  obtain ⟨hresult, hmachine⟩ := value_run_of_ok (r := r.inMode .interpret) rfl h hbackend
  refine ⟨?_, ?_, ?_⟩
  · rw [hmachine, hinterpret]
    rfl
  · rw [hresult, hinterpret, Run.interpretation, Interpretation.result]
    cases run.ending.failure? <;> rfl
  · intro result hok
    rw [hresult, Run.interpretation, Interpretation.result] at hok
    cases hfailure : run.ending.failure? with
    | some failure =>
        simp only [hfailure] at hok
        cases hok
    | none =>
        simp only [hfailure] at hok
        obtain rfl := Except.ok.inj hok
        have hsizes := sizes_timed (r := r.inMode .interpret) h .interpret
          (x := ranResult _ (run.machine.output, run.machine.stats)) rfl
        rw [hbooks] at hsizes
        exact ⟨rfl, rfl, _, rfl, hsizes⟩

theorem compiles_of_parse {p : Program} (h : (parse r.source).value = .ok p) (fuel : Nat) :
    r.Compiles fuel := by
  have hfree := (flatten_of_nestLogged (parse_value r.source ▸ h)).2.2
  have hcompile := value_compile_of_ok h r.config r.annotate
  have hbackend := value_backend_compile (r.inMode .compile) hfree fuel
    (.start r.config r.input r.hasSink) ((r.inMode .compile).programStats .compile p)
  obtain ⟨hresult, hmachine⟩ := value_run_of_ok (r := r.inMode .compile) rfl h hbackend
  have hlisting : listingOf (r.inMode .compile).config (r.inMode .compile).annotate p.body =
      listingOf r.config r.annotate p.body := rfl
  rw [hlisting] at hresult
  generalize listingOf r.config r.annotate p.body = listing at hcompile hresult
  have hsizes := sizes_timed (r := r.inMode .compile) h .compile
    (x := compiledResult _ listing.text) rfl
  exact ⟨hmachine, listing, _, hcompile, hresult, hsizes⟩

end Pipeline

/-- **The entry points agree.** Whatever else a request asks for, and whatever its clock shows: if
the instructions of its text are unbalanced, every entry point refuses the text with that fault and
has touched neither the input nor the sink. If they are balanced, the pipeline interprets the text
as it is interpreted alone, within every number of moves, and compiles it to the listing it is
compiled to alone. It hands back the output and the counters of the one and the listing of the
other, and the sizes it reports are those of the table of commands and of what was put out. -/
theorem entry_points_agree (r : Pipeline) :
    (∀ f, (nestLogged (lex r.source)).value = .error f →
      (∃ index, f = .unmatchedOpen index ∨ f = .unmatchedClose index) ∧ r.Refuses f) ∧
    ∀ p, (nestLogged (lex r.source)).value = .ok p →
      ∀ fuel, r.Interprets fuel ∧ r.Compiles fuel := by
  constructor
  · intro f h
    exact ⟨unmatched_of_nestLogged h, Pipeline.refuses_of_parse h⟩
  · intro p h fuel
    exact ⟨Pipeline.interprets_of_parse h fuel, Pipeline.compiles_of_parse h fuel⟩

/-- Requests with a text that closes a loop too many, with a text that runs off the tape after it
has read and put out a byte, and with a text that puts out two bytes for a sink. -/
theorem entry_points_agree_on_faults :
    let stray : Pipeline := { source := "go ,[.]<]", input := [7], verbose := true }
    let runaway : Pipeline := { source := ",.<[]", input := [7], clock := ⟨[5, 3]⟩ }
    let twice : Pipeline := { source := ",+..", input := [7], hasSink := true }
    stray.Refuses (.unmatchedClose 5) ∧
      (runaway.Interprets 9 ∧ runaway.Compiles 9 ∧
        (interpret 9 ",.<[]" {} [7] true).value.failure =
          some (.fault (.edge .pointerUnderflow 2 0))) ∧
      twice.Interprets 9 ∧ twice.Compiles 9 ∧
        (((twice.inMode .interpret).run 9).value.result.map fun x => (x.output, x.stats)) =
          .ok (#[8, 8], some ⟨4, 0, 1, 2, 0⟩) := by
  intro stray runaway twice
  have hstray : (nestLogged (lex "go ,[.]<]")).value = .error (.unmatchedClose 5) := rfl
  have hrunaway : (nestLogged (lex ",.<[]")).value = .ok _ := rfl
  have htwice : (nestLogged (lex ",+..")).value = .ok _ := rfl
  have hinterpreted : (interpret 9 ",+.." {} [7] true).value.result =
      .ok (#[8, 8], ⟨4, 0, 1, 2, 0⟩) := rfl
  obtain ⟨hinterprets, hcompiles⟩ := (entry_points_agree runaway).2 _ hrunaway 9
  obtain ⟨hinterprets', hcompiles'⟩ := (entry_points_agree twice).2 _ htwice 9
  exact ⟨((entry_points_agree stray).1 _ hstray).2, ⟨hinterprets, hcompiles, rfl⟩, hinterprets',
    hcompiles', hinterprets'.result.trans (congrArg _ hinterpreted)⟩

end TapeLang
