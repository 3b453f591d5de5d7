import TapeLang.Proofs.Machine.Replay
import TapeLang.Proofs.Toolchain.Comments

/-!
# Traces of texts

The trace of a text lists the executed instructions of its run. It is there exactly if the text is
interpreted to the end, with the same output and counters, whether or not a sink receives the output
as well (`value_interpret_withoutSink`).

A trace tells the whole run. Its instructions come from the text, and repeating them on a blank tape
shows the states that were recorded. The output, the bytes read and the last place of the pointer
follow from the recorded steps alone (`ExecutionTrace.Replays`, `trace_replays_the_run`).
-/

set_option autoImplicit false

namespace TapeLang

/-! ## Runs without a sink -/

/-- The same machine with no sink attached. -/
def Machine.withoutSink (m : Machine) : Machine :=
  { m with sink := none }

/-- An interpretation as it would be with no sink attached. -/
def Interpretation.withoutSink {σ : Type} (t : Interpretation σ) : Interpretation σ :=
  { t with machine := t.machine.withoutSink }

theorem Machine.perform_withoutSink (m : Machine) (i : Instruction) :
    m.withoutSink.perform i = (m.perform i).withoutSink := by
  obtain ⟨tape, input, output, sink, stats⟩ := m
  obtain ⟨command, index, offset⟩ := i
  cases command with
  | moveLeft | moveRight | increment | decrement | output | loopOpen | loopClose => rfl
  | input => cases input <;> rfl

/-- Nothing that a machine does depends on a sink. -/
theorem simulation_withoutSink :
    Simulation .idle .idle .same (fun _ => True) fun m _ m' _ => m' = m.withoutSink where
  within _ := trivial
  cell_eq := by
    rintro m _ m' _ rfl
    rfl
  iterate := by
    rintro m _ m' _ rfl
    rfl
  accepts := by
    rintro m _ m' _ i rfl ho _
    exact ho
  halts_eq := by
    intro m _ m' _ i _ _ _
    rfl
  perform := by
    rintro m _ m' _ i rfl _ _
    exact m.perform_withoutSink i

/-- **A sink changes nothing about a run.** -/
theorem Machine.run_withoutSink (m : Machine) (fuel : Nat) (p : Program) :
    m.withoutSink.run .idle () fuel p =
      { m.run .idle () fuel p with machine := (m.run .idle () fuel p).machine.withoutSink } := by
  generalize hr : m.run .idle () fuel p = r
  obtain ⟨ending, machine, _⟩ := r
  obtain ⟨m₁, _, _, rfl, hmachine, hrun⟩ :=
    simulation_withoutSink.run_of_refuses (f := id) (fun hm ho => hm ▸ ho)
      p.body.relabel_same.symm rfl hr trivial
  obtain rfl : machine = ending.leave m₁ := hmachine
  rw [hrun, Ending.map_id]
  cases ending <;> rfl

theorem value_interpret_withoutSink (fuel : Nat) (source : String) (config : TapeConfig)
    (input : List UInt8) (hasSink : Bool) :
    (interpret fuel source config input false).value =
      (interpret fuel source config input hasSink).value.withoutSink := by
  have hstart : (Machine.start config input hasSink).withoutSink =
      Machine.start config input false := rfl
  cases hp : (parse source).value with
  | error f =>
      rw [interpret, interpret, value_interpretWatched_of_error _ _ _ hp,
        value_interpretWatched_of_error _ _ _ hp]
      rfl
  | ok p =>
      rw [interpret, interpret, value_interpretWatched_of_ok _ _ _ hp,
        value_interpretWatched_of_ok _ _ _ hp, ← hstart, Machine.run_withoutSink]
      rfl

/-! ## Traces and interpretations -/

theorem Interpretation.result_unwatched {σ : Type} (t : Interpretation σ) :
    t.unwatched.result = t.result := rfl

theorem Interpretation.result_withoutSink {σ : Type} (t : Interpretation σ) :
    t.withoutSink.result = t.result := rfl

variable {fuel : Nat} {source : String} {config : TapeConfig} {input : List UInt8}

/-- **A text is traced as it is interpreted.** -/
theorem value_executeTraced_map (fuel : Nat) (source : String) (config : TapeConfig)
    (input : List UInt8) (hasSink : Bool) :
    (executeTraced fuel source config input).value.map (fun t => (t.output, t.stats)) =
      (interpret fuel source config input hasSink).value.result := by
  rw [← Interpretation.result_withoutSink, ← value_interpret_withoutSink, value_interpret_eq,
    ← value_trace, Interpretation.result_unwatched, value_executeTraced]
  generalize (trace fuel source config input).value = t
  obtain ⟨_ | failure, m, seen⟩ := t <;> rfl

/-! ## What a trace tells -/

/-- The steps of a trace without their numbers. -/
def ExecutionTrace.sightings (t : ExecutionTrace) : List Sighting :=
  t.steps.map TraceStep.toSighting

theorem map_toSighting_numbered (seen : Array Sighting) :
    (numbered seen).map TraceStep.toSighting = seen.toList := by
  rw [numbered, List.map_map]
  exact List.zipIdx_map_fst 0 seen.toList

theorem index_numbered {seen : Array Sighting} {k : Nat} {x : TraceStep}
    (h : (numbered seen)[k]? = some x) : x.index = k := by
  rw [numbered, List.getElem?_map, List.getElem?_zipIdx, Option.map_map] at h
  obtain ⟨y, -, rfl⟩ := Option.map_eq_some_iff.1 h
  exact Nat.zero_add k

/-- A trace is that of a run of a text, told by its steps alone. -/
structure ExecutionTrace.Replays (source : String) (config : TapeConfig) (input : List UInt8)
    (t : ExecutionTrace) : Prop where
  /-- Every counted step is there, -/
  length : t.steps.length = t.stats.steps
  /-- with its number, -/
  index : ∀ (k : Nat) (x : TraceStep), t.steps[k]? = some x → x.index = k
  /-- and executes an instruction of the text that does not delimit a loop. -/
  instructions : ∀ x ∈ t.sightings,
    x.instruction ∈ lex source ∧ x.instruction.command.isDelimiter = false
  /-- A blank tape accepts all the instructions in turn, -/
  accepted : ∃ r, Replay.after ⟨.blank config, input⟩
    (t.sightings.map Sighting.instruction) = .ok r
  /-- and each of them leaves the pointer and the cell that its step shows. -/
  states : ∀ (k : Nat) (x : Sighting), t.sightings[k]? = some x →
    ∃ r, Replay.after ⟨.blank config, input⟩
        ((t.sightings.take (k + 1)).map Sighting.instruction) = .ok r ∧
      r.tape.pointer = x.pointer ∧ r.tape.cell = x.cell
  /-- The output is what the output steps show. -/
  output : t.output.toList = Sighting.outputs t.sightings
  bytesWritten : t.stats.bytesWritten = t.sightings.countP (Sighting.shows .output)
  /-- Every read but those past the end took a byte. -/
  bytesRead : t.stats.bytesRead = min (t.sightings.countP (Sighting.shows .input)) input.length
  /-- The pointer ends where the last step shows it, or never left the first cell. -/
  finalPointer : t.stats.finalPointer = (t.sightings.getLast?.map Sighting.pointer).getD 0
  /-- On a bounded tape it is as far to the right as there are moves to the right, less those to the
  left. -/
  bounded : config.policy = .bounded →
    (t.stats.finalPointer : Int) = Sighting.displacement t.sightings
  /-- On a wrapping tape this holds up to the length of the tape. -/
  wrapping : config.policy = .wrapping →
    (t.stats.finalPointer : Int) = Sighting.displacement t.sightings % config.length.cells

/-- The recorded run of a program from the beginning. -/
theorem recorded_of_run {p : Program} (hp : (parse source).value = .ok p) {ending : Ending}
    {m : Machine} {seen : Array Sighting}
    (hr : (Machine.start config input false).run (.recording none) #[] fuel p =
      ⟨ending, m, seen⟩) :
    ∃ m', Machine.Recorded config input m' seen.toList ∧ m = ending.leave m' ∧
      ∀ x ∈ seen.toList,
        x.instruction ∈ lex source ∧ x.instruction.command.isDelimiter = false := by
  obtain ⟨m', ⟨hrecorded, hlexed⟩, hmachine, -⟩ := (course_of_run hr).invariant_of_all
    (I := fun m (seen : Array Sighting) =>
      Machine.Recorded config input m seen.toList ∧ ∀ x ∈ seen.toList,
        x.instruction ∈ lex source ∧ x.instruction.command.isDelimiter = false)
    (fun h => ⟨h.1.iterate, h.2⟩)
    (by
      intro m seen i hi h ho
      rw [Watcher.after_recording_none, Array.toList_push]
      refine ⟨h.1.perform ho, ?_⟩
      intro x hx
      rcases List.mem_append.1 hx with hx | hx
      · exact h.2 x hx
      · obtain rfl := List.mem_singleton.1 hx
        exact hi)
    (Program.all_frames (all_lexed_of_parse hp))
    ⟨Machine.recorded_start config input false, by simp⟩
  exact ⟨m', hrecorded, hmachine, hlexed⟩

/-- A recorded run that finished is told by its record. -/
theorem replays_of_run {p : Program} (hp : (parse source).value = .ok p) {m : Machine}
    {seen : Array Sighting}
    (hr : (Machine.start config input false).run (.recording none) #[] fuel p =
      ⟨.finished, m, seen⟩) :
    ExecutionTrace.Replays source config input ⟨numbered seen, m.stats, m.output⟩ := by
  have hsteps := (course_of_run hr).steps_recorded
  obtain ⟨m', h, rfl, hlexed⟩ := recorded_of_run hp hr
  have hseen := map_toSighting_numbered seen
  have hfinal : (m'.settle).stats.finalPointer = m'.tape.pointer := rfl
  have hplace := h.pointer
  rw [TapeConfig.place] at hplace
  refine ⟨?_, fun k x => index_numbered, ?_, ⟨m'.replay, ?_⟩, ?_, ?_, ?_, ?_, ?_, ?_, ?_⟩ <;>
    simp only [ExecutionTrace.sightings, hseen]
  · rw [numbered, List.length_map, List.length_zipIdx, Array.length_toList]
    exact (Nat.zero_add _).symm.trans hsteps
  · exact hlexed
  · exact h.replayed
  · exact h.states
  · exact h.output
  · exact h.bytesWritten
  · exact h.read.bytesRead_eq
  · exact h.pointer_eq
  · intro hpolicy
    rw [TapeConfig.wraps_eq_false_iff.2 hpolicy, if_neg Bool.false_ne_true] at hplace
    exact hplace
  · intro hpolicy
    rw [if_pos (by rw [TapeConfig.wraps, hpolicy]; rfl)] at hplace
    exact hplace

/-- **A trace replays the run.** A text is traced exactly if it is interpreted to the end, and then
with the same output and counters; if it is not, both fail in the same way. The trace tells all of
the run by its steps: they are as many as the run has, in order, and execute instructions of the
text; a blank tape accepts them one after the other and shows the recorded states; and the output,
the bytes written and read and the last place of the pointer are theirs. -/
theorem trace_replays_the_run (source : String) (config : TapeConfig) (input : List UInt8)
    (fuel : Nat) :
    (∀ hasSink,
      (executeTraced fuel source config input).value.map (fun t => (t.output, t.stats)) =
        (interpret fuel source config input hasSink).value.result) ∧
      ∀ t, (executeTraced fuel source config input).value = .ok t →
        t.Replays source config input := by
  refine ⟨value_executeTraced_map fuel source config input, ?_⟩
  intro t ht
  rw [value_executeTraced, value_trace] at ht
  cases hp : (parse source).value with
  | error f =>
      rw [value_interpretWatched_of_error _ _ _ hp] at ht
      cases ht
  | ok p =>
      rw [value_interpretWatched_of_ok _ _ _ hp] at ht
      generalize hr : (Machine.start config input false).run (.recording none) #[] fuel p = r at ht
      obtain ⟨ending, m, seen⟩ := r
      rcases ending with _ | ⟨_ | _⟩ | _ | _
      · obtain rfl := Except.ok.inj ht
        exact replays_of_run hp hr
      all_goals cases ht

/-- A byte is read on the first cell of a ring, and the end of the input on the last one. -/
theorem trace_of_reads_around_ring :
    let ring : TapeConfig := { policy := .wrapping, length := .number 3 }
    let t : ExecutionTrace :=
      { steps := [⟨⟨⟨.input, 0, 0⟩, 0, 5⟩, 0⟩, ⟨⟨⟨.moveLeft, 2, 2⟩, 2, 0⟩, 1⟩,
          ⟨⟨⟨.input, 3, 3⟩, 2, 0⟩, 2⟩, ⟨⟨⟨.output, 4, 4⟩, 2, 0⟩, 3⟩]
        stats := ⟨4, 1, 1, 1, 2⟩
        output := #[0] }
    (executeTraced 20 ",[<,.]" ring [5]).value = .ok t ∧ t.Replays ",[<,.]" ring [5] := by
  intro ring t
  have htraced : (executeTraced 20 ",[<,.]" ring [5]).value = .ok t := rfl
  exact ⟨htraced, (trace_replays_the_run ",[<,.]" ring [5] 20).2 t htraced⟩

end TapeLang
