import TapeLang.Proofs.Machine.Sequence
import TapeLang.Proofs.Nesting.Comments
import TapeLang.Proofs.Toolchain.Faults

/-!
# Comments do not matter at run time

The offsets of the instructions tell a text from the same text without its comments, and nothing
else does. A tree carries them along, and so does what a watcher sees; but no move depends on them,
no counter, and no fault (`Machine.run_recording_relabel`). So texts that differ in their comments
run alike (`comments_never_matter`).
-/

set_option autoImplicit false

namespace TapeLang

/-! ## Recorded runs under other labels -/

/-- What is seen of an instruction with another label. -/
def Sighting.relabel (l : Relabelling) (x : Sighting) : Sighting :=
  { x with instruction := l.instruction x.instruction }

/-- A recorded run with other labels. -/
def Run.relabelRecord (l : Relabelling) (r : Run (Array Sighting)) : Run (Array Sighting) where
  ending := r.ending.map (Obstacle.relabel l)
  machine := r.machine
  watched := r.watched.map (Sighting.relabel l)

/-- Labels go into the record and make no other difference. -/
theorem simulation_relabel_recording {l : Relabelling} (hl : l.Faithful) :
    Simulation (.recording none) (.recording none) l (fun _ => True)
      fun m seen m' seen' => m' = m ∧ seen' = seen.map (Sighting.relabel l) where
  within _ := trivial
  cell_eq := by
    rintro m seen m' seen' ⟨rfl, -⟩
    rfl
  iterate := by
    rintro m seen m' seen' ⟨rfl, rfl⟩
    exact ⟨rfl, rfl⟩
  accepts := by
    rintro m seen m' seen' i ⟨rfl, -⟩ ho _
    rw [m'.obstacle?_relabel hl, ho]
    rfl
  halts_eq := by
    intro m seen m' seen' i _ _ _
    rfl
  perform := by
    rintro m seen m' seen' i ⟨rfl, rfl⟩ _ _
    have hsighting : m'.sighting (l.instruction i) = (m'.sighting i).relabel l := by
      rw [Machine.sighting, Machine.perform_relabel hl]
      rfl
    refine ⟨Machine.perform_relabel hl m' i, ?_⟩
    rw [Watcher.after_recording_none, Watcher.after_recording_none, Array.map_push, hsighting]

/-- **A recorded run under other labels** is the same run with other labels in its record. -/
theorem Machine.run_recording_relabel {l : Relabelling} (hl : l.Faithful) {p q : Program}
    (hq : q.body = p.body.relabel l) (m : Machine) (fuel : Nat) :
    m.run (.recording none) #[] fuel q =
      (m.run (.recording none) #[] fuel p).relabelRecord l := by
  generalize hr : m.run (.recording none) #[] fuel p = r
  obtain ⟨m₁, _, _, ⟨rfl, rfl⟩, hmachine, hrun⟩ :=
    (simulation_relabel_recording hl).run_of_refuses (f := Obstacle.relabel l) (by
      rintro m _ m' _ i o ⟨rfl, -⟩ ho
      rw [m'.obstacle?_relabel hl, ho]
      rfl) hq (m := m) (t := #[]) ⟨rfl, Array.map_empty.symm⟩ hr trivial
  rw [hrun, Run.relabelRecord, hmachine]

/-! ## Runs of texts -/

theorem Fault.reindex_id (f : Fault) : f.reindex id = f := by
  cases f <;> rfl

/-- Only obstacles that are delimiters have a place in the text. -/
theorem Ending.map_bare {ending : Ending} (h : ∀ i, ending ≠ .blocked (.delimiter i)) :
    ending.map (Obstacle.relabel .bare) = ending := by
  rcases ending with _ | ⟨f | i⟩ | _ | _
  · rfl
  · exact congrArg (fun f => Ending.blocked (.fault f)) f.reindex_id
  · exact absurd rfl (h i)
  · rfl
  · rfl

variable {a b source : String} {p q : Program}

/-- No delimiter is in the way of a text that is a program. -/
theorem run_ne_delimiter (hp : (parse source).value = .ok p) (config : TapeConfig)
    (input : List UInt8) (hasSink : Bool) (fuel : Nat) (i : Instruction) :
    ((Machine.start config input hasSink).run .idle () fuel p).ending ≠
      .blocked (.delimiter i) :=
  Machine.ending_ne_delimiter (flatten_of_nestLogged (parse_value source ▸ hp)).2.2 i

/-- An interpretation with a record, without places in the text. -/
def Interpretation.bare (t : Interpretation (Array Sighting)) : Interpretation (Array Sighting) :=
  { t with watched := t.watched.map (Sighting.relabel .bare) }

/-- An interpretation without what the watcher made of it. -/
def Interpretation.unwatched {σ : Type} (t : Interpretation σ) : Interpretation Unit :=
  ⟨t.failure, t.machine, ()⟩

theorem Interpretation.unwatched_bare (t : Interpretation (Array Sighting)) :
    t.bare.unwatched = t.unwatched := rfl

/-- A trace without places in the text. -/
def ExecutionTrace.bare (t : ExecutionTrace) : ExecutionTrace :=
  { t with steps := t.steps.map fun x => { x with toSighting := x.toSighting.relabel .bare } }

/-- The trace of a record without places in the text is the trace without places in the text. -/
theorem Interpretation.executionTrace_bare (t : Interpretation (Array Sighting)) :
    t.bare.executionTrace = t.executionTrace.bare := by
  have hsteps : numbered (t.watched.map (Sighting.relabel .bare)) =
      (numbered t.watched).map fun x =>
        { x with toSighting := x.toSighting.relabel .bare } := by
    rw [numbered, numbered, Array.toList_map, List.zipIdx_map, List.map_map, List.map_map]
    rfl
  exact congrArg (ExecutionTrace.mk · t.machine.stats t.machine.output) hsteps

theorem executeTraced_bare (fuel : Nat) (source : String) (config : TapeConfig)
    (input : List UInt8) :
    (executeTraced fuel source config input).value.map ExecutionTrace.bare =
      (trace fuel source config input).value.bare.result.map fun _ =>
        (trace fuel source config input).value.bare.executionTrace := by
  rw [value_executeTraced, Interpretation.executionTrace_bare]
  generalize (trace fuel source config input).value = t
  obtain ⟨_ | failure, m, seen⟩ := t <;> rfl

/-- A text is interpreted as it is traced. -/
theorem value_interpret_eq (fuel : Nat) (source : String) (config : TapeConfig)
    (input : List UInt8) (hasSink : Bool) :
    (interpret fuel source config input hasSink).value =
      (interpretWatched (.recording none) #[] fuel source config input
        hasSink).value.unwatched := by
  cases hp : (parse source).value with
  | error f =>
      rw [interpret, value_interpretWatched_of_error _ _ _ hp,
        value_interpretWatched_of_error _ _ _ hp]
      rfl
  | ok p =>
      rw [interpret, value_interpretWatched_of_ok _ _ _ hp, value_interpretWatched_of_ok _ _ _ hp]
      generalize hr : (Machine.start config input hasSink).run .idle () fuel p = r
      obtain ⟨ending, m, _⟩ := r
      obtain ⟨seen, hrecorded, -⟩ := Machine.run_recording hr
      rw [hrecorded]
      rfl

/-- The trace of a program without places in the text is the trace without places in the text. -/
theorem interpretation_bare (hp : (parse source).value = .ok p) (config : TapeConfig)
    (input : List UInt8) (hasSink : Bool) (fuel : Nat) :
    ((Machine.start config input hasSink).run (.recording none) #[] fuel p).interpretation.bare =
      ((Machine.start config input hasSink).run (.recording none) #[] fuel
        p.bare).interpretation := by
  have hdelimiter := run_ne_delimiter hp config input hasSink fuel
  rw [Machine.run_recording_relabel Relabelling.faithful_bare (p := p) (q := p.bare) rfl]
  generalize hr : (Machine.start config input hasSink).run (.recording none) #[] fuel p = r
  obtain ⟨ending, m, seen⟩ := r
  rw [Machine.run_of_recorded hr] at hdelimiter
  simp only [Run.relabelRecord, Ending.map_bare hdelimiter]
  rfl

/-- **Texts with the same commands are traced alike**, up to the offsets in the record. -/
theorem interpretWatched_bare_eq (h : commandsOf a = commandsOf b) (fuel : Nat)
    (config : TapeConfig) (input : List UInt8) (hasSink : Bool) :
    (interpretWatched (.recording none) #[] fuel a config input hasSink).value.bare =
      (interpretWatched (.recording none) #[] fuel b config input hasSink).value.bare := by
  have hparse := parse_bare_eq h
  cases hp : (parse a).value with
  | error f =>
      cases hq : (parse b).value with
      | ok q =>
          rw [hp, hq] at hparse
          cases hparse
      | error f' =>
          rw [hp, hq] at hparse
          obtain rfl : f = f' := Except.error.inj hparse
          rw [value_interpretWatched_of_error _ _ _ hp, value_interpretWatched_of_error _ _ _ hq]
  | ok p =>
      cases hq : (parse b).value with
      | error f =>
          rw [hp, hq] at hparse
          cases hparse
      | ok q =>
          rw [hp, hq] at hparse
          have hbare : p.bare = q.bare := Except.ok.inj hparse
          rw [value_interpretWatched_of_ok _ _ _ hp, value_interpretWatched_of_ok _ _ _ hq,
            interpretation_bare hp, interpretation_bare hq, hbare]

/-- Counting commands looks at nothing but the commands. -/
theorem commandCounts_eq_of_map {xs ys : List Instruction}
    (h : xs.map Instruction.command = ys.map Instruction.command) :
    commandCounts xs = commandCounts ys := by
  have hcount : ∀ (zs : List Instruction) (c : Command),
      (zs.countP fun i => i.command == c) = (zs.map Instruction.command).countP (· == c) := by
    intro zs c
    rw [List.countP_map]
    rfl
  simp only [commandCounts, hcount, h]

/-! ## Comments -/

/-- Two texts come to the same in every stage, up to the offsets of instructions. -/
structure SameButOffsets (a b : String) : Prop where
  /-- Neither is a program, for the same reason, or both are, with the same tree. -/
  programs : (parse a).value.map Program.bare = (parse b).value.map Program.bare
  /-- Whatever the permitted number of moves, they are interpreted with the same failure, if any,
  and leave the same machine behind: tape, streams, sink and counters. -/
  interpretations : ∀ fuel config input hasSink,
    (interpret fuel a config input hasSink).value = (interpret fuel b config input hasSink).value
  /-- The same is recorded of their runs, also if these do not finish. -/
  records : ∀ fuel config input,
    (trace fuel a config input).value.bare = (trace fuel b config input).value.bare
  /-- They leave the same trace behind, or fail in the same way. -/
  traces : ∀ fuel config input,
    (executeTraced fuel a config input).value.map ExecutionTrace.bare =
      (executeTraced fuel b config input).value.map ExecutionTrace.bare
  /-- They have the same commands equally often. -/
  counts : (countCommands a).value = (countCommands b).value

theorem trace_bare_eq (h : commandsOf a = commandsOf b) (fuel : Nat) (config : TapeConfig)
    (input : List UInt8) :
    (trace fuel a config input).value.bare = (trace fuel b config input).value.bare := by
  rw [value_trace, value_trace]
  exact interpretWatched_bare_eq h fuel config input false

theorem sameButOffsets_of_commandsOf (h : commandsOf a = commandsOf b) : SameButOffsets a b where
  programs := parse_bare_eq h
  interpretations := by
    intro fuel config input hasSink
    have hbare := interpretWatched_bare_eq h fuel config input hasSink
    rw [value_interpret_eq, value_interpret_eq]
    rw [← Interpretation.unwatched_bare, hbare, Interpretation.unwatched_bare]
  records := trace_bare_eq h
  traces := by
    intro fuel config input
    rw [executeTraced_bare, executeTraced_bare, trace_bare_eq h]
  counts := by
    rw [value_countCommands, value_countCommands]
    apply commandCounts_eq_of_map
    rw [map_command_lex, map_command_lex, h]

/-- **Comments never matter at run time.** Two texts that are the same without their comments are
both no programs, with the same fault, or are programs with the same tree; their runs end in the
same way, with the same machine, and never in one case exactly if never in the other; their traces
are the same, and so are the counts of their commands. Only the offsets of instructions differ, in
the trees and in the traces. In particular all this holds of a text and the text without its
comments. -/
theorem comments_never_matter (a : String) :
    (∀ b, stripComments a = stripComments b → SameButOffsets a b) ∧
      SameButOffsets a (stripComments a) := by
  constructor
  · intro b h
    exact sameButOffsets_of_commandsOf (stripComments_eq_iff.1 h)
  · exact sameButOffsets_of_commandsOf (commandsOf_stripComments a).symm

/-- A text with a word before each of its commands, and the same commands on lines of their own. -/
theorem remarks_do_not_matter :
    stripComments "add + repeat [ out . less - ]" = stripComments "+\n[\n.\n-\n]\n" ∧
      SameButOffsets "add + repeat [ out . less - ]" "+\n[\n.\n-\n]\n" := by
  have hstrip : stripComments "add + repeat [ out . less - ]" =
      stripComments "+\n[\n.\n-\n]\n" := by
    decide
  exact ⟨hstrip, (comments_never_matter _).1 _ hstrip⟩

end TapeLang
