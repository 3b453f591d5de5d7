import TapeLang.Proofs.Machine.Edges
import TapeLang.Proofs.Machine.Reading

/-!
# Replaying a record on a tape

A record of a run lists the executed instructions in order. It has no loops left in it, so it can be
repeated on a bare tape without the program, its frames or its counters: `Replay.after` performs the
tape operations of a list of instructions one after the other.

Whatever a machine executes, a replay repeats (`Replay.step_replay`). So a record that was made from
the beginning of a run leads a replay to the machine's own tape, through all the tapes that the
watcher saw on the way (`Machine.Recorded`). Output, what was read and where the pointer went can be
read off the record as well.
-/

set_option autoImplicit false

namespace TapeLang

/-! ## Replays -/

/-- A tape on which instructions are repeated, and the input that is left for them. -/
structure Replay where
  tape : Tape
  input : List UInt8

namespace Replay

/-- Repeat the tape operation of an instruction. Reading writes the next byte of the input, or zero
if none is left. -/
def step (r : Replay) (i : Instruction) : Except Fault Replay :=
  match i.command with
  | .moveLeft => (r.tape.move (-1) i.index).map fun tape => { r with tape }
  | .moveRight => (r.tape.move 1 i.index).map fun tape => { r with tape }
  | .increment => (r.tape.add 1 i.index).map fun tape => { r with tape }
  | .decrement => (r.tape.add (-1) i.index).map fun tape => { r with tape }
  | .input => .ok ⟨r.tape.put (r.input.headD 0), r.input.tail⟩
  | .output | .loopOpen | .loopClose => .ok r

/-- Repeat instructions one after the other. -/
def after (r : Replay) (instructions : List Instruction) : Except Fault Replay :=
  instructions.foldlM step r

theorem after_concat {r r' : Replay} {instructions : List Instruction}
    (h : r.after instructions = .ok r') (i : Instruction) :
    r.after (instructions ++ [i]) = r'.step i := by
  rw [after] at h
  rw [after, List.foldlM_append, h]
  show r'.step i >>= pure = r'.step i
  exact bind_pure _

end Replay

/-- What a replay sees of a machine. -/
def Machine.replay (m : Machine) : Replay :=
  ⟨m.tape, m.input⟩

/-- **A replay repeats what a machine executes.** -/
theorem Replay.step_replay {m : Machine} {i : Instruction} (ho : m.obstacle? i = none) :
    m.replay.step i = .ok (m.perform i).replay := by
  obtain ⟨tape, input, output, sink, stats⟩ := m
  obtain ⟨command, index, offset⟩ := i
  cases command with
  | moveLeft | moveRight =>
      have hmove := Tape.move_of_moveFault? (Option.map_eq_none_iff.1 ho)
      exact congrArg (Except.map (Replay.mk · input)) hmove
  | increment | decrement =>
      have hadd := Tape.add_of_addFault? (Option.map_eq_none_iff.1 ho)
      exact congrArg (Except.map (Replay.mk · input)) hadd
  | input => cases input <;> rfl
  | output => rfl
  | loopOpen | loopClose => cases ho

/-! ## Where the pointer goes -/

/-- By how many cells a command moves the pointer to the right. -/
def Command.delta : Command → Int
  | moveLeft => -1
  | moveRight => 1
  | increment | decrement | output | input | loopOpen | loopClose => 0

/-- Where a displacement from the first cell leads. -/
def TapeConfig.place (c : TapeConfig) (displacement : Int) : Int :=
  if c.wraps then displacement % c.length.cells else displacement

/-- Where the pointer stands after a move that its tape accepts. -/
theorem Tape.pointer_shift_eq_place {t : Tape} {c : TapeConfig} (ht : t.Fits c)
    {displacement : Int} (hplace : (t.pointer : Int) = c.place displacement) {delta index : Int}
    (h : t.moveFault? delta index = none) :
    ((t.shift delta).pointer : Int) = c.place (displacement + delta) := by
  unfold TapeConfig.place at hplace ⊢
  cases hw : c.wraps with
  | true =>
      rw [hw, if_pos rfl] at hplace
      rw [cast_pointer_shift h, hplace, ht.size_eq, if_pos rfl, Int.emod_add_emod]
  | false =>
      rw [hw, if_neg Bool.false_ne_true] at hplace
      rw [pointer_shift_of_moveFault? (ht.config_eq ▸ hw) h, hplace, if_neg Bool.false_ne_true]

/-- An executed instruction moves the pointer by as much as its command says. -/
theorem Machine.pointer_perform {m : Machine} {c : TapeConfig} (hm : m.tape.Fits c)
    {displacement : Int} (hplace : (m.tape.pointer : Int) = c.place displacement)
    {i : Instruction} (ho : m.obstacle? i = none) :
    ((m.perform i).tape.pointer : Int) = c.place (displacement + i.command.delta) := by
  have hstays : (m.tape.pointer : Int) = c.place (displacement + 0) := by
    rw [Int.add_zero]
    exact hplace
  obtain ⟨tape, input, output, sink, stats⟩ := m
  obtain ⟨command, index, offset⟩ := i
  cases command with
  | moveLeft | moveRight =>
      apply Tape.pointer_shift_eq_place hm hplace
      exact Option.map_eq_none_iff.1 ho
  | increment | decrement | output | loopOpen | loopClose => exact hstays
  | input => cases input <;> exact hstays

/-! ## What a record tells -/

namespace Sighting

/-- Whether the instruction of a sighting has a certain command. -/
def shows (command : Command) (x : Sighting) : Bool :=
  x.instruction.command == command

/-- The bytes that the instructions of a record put out: the cells seen at its outputs. -/
def outputs (seen : List Sighting) : List UInt8 :=
  (seen.filter (shows .output)).map Sighting.cell

/-- How far to the right the instructions of a record lead. -/
def displacement (seen : List Sighting) : Int :=
  seen.countP (shows .moveRight) - seen.countP (shows .moveLeft)

theorem displacement_concat (seen : List Sighting) (x : Sighting) :
    displacement (seen ++ [x]) = displacement seen + x.instruction.command.delta := by
  obtain ⟨⟨command, index, offset⟩, pointer, cell⟩ := x
  simp only [displacement, List.countP_append, List.countP_singleton, shows]
  cases command <;> simp [Command.delta] <;> omega

end Sighting

open Sighting

namespace Machine

/-- A machine stands where a record ends that was made from the beginning, on a tape with a
configuration and an input. -/
structure Recorded (c : TapeConfig) (input : List UInt8) (m : Machine) (seen : List Sighting) :
    Prop where
  tape : m.tape.Fits c
  /-- Repeating the record leads to the tape of the machine and to the input it has left. -/
  replayed : Replay.after ⟨.blank c, input⟩ (seen.map Sighting.instruction) = .ok m.replay
  /-- On the way it leads through all the tapes that were seen. -/
  states : ∀ k x, seen[k]? = some x →
    ∃ r, Replay.after ⟨.blank c, input⟩ ((seen.take (k + 1)).map Sighting.instruction) = .ok r ∧
      r.tape.pointer = x.pointer ∧ r.tape.cell = x.cell
  output : m.output.toList = outputs seen
  bytesWritten : m.stats.bytesWritten = seen.countP (shows .output)
  read : m.HasRead input (seen.countP (shows .input))
  pointer : (m.tape.pointer : Int) = c.place (displacement seen)

theorem recorded_start (c : TapeConfig) (input : List UInt8) (hasSink : Bool) :
    Recorded c input (start c input hasSink) [] where
  tape := .blank c
  replayed := rfl
  states := by simp
  output := rfl
  bytesWritten := rfl
  read := hasRead_start c input hasSink
  pointer := by
    unfold TapeConfig.place
    split <;> rfl

variable {c : TapeConfig} {input : List UInt8} {m : Machine} {seen : List Sighting}

theorem Recorded.iterate (h : Recorded c input m seen) : Recorded c input m.iterate seen :=
  ⟨h.tape, h.replayed, h.states, h.output, h.bytesWritten, ⟨h.read.input_eq, h.read.bytesRead_eq⟩,
    h.pointer⟩

/-- What an instruction puts out is the cell that is seen after it. -/
theorem output_perform (m : Machine) (i : Instruction) :
    (m.perform i).output.toList = m.output.toList ++ outputs [m.sighting i] ∧
      (m.perform i).stats.bytesWritten =
        m.stats.bytesWritten + [m.sighting i].countP (shows .output) := by
  obtain ⟨tape, input, output, sink, stats⟩ := m
  obtain ⟨command, index, offset⟩ := i
  cases command with
  | output =>
      constructor
      · show (output.push tape.cell).toList = output.toList ++ [tape.cell]
        rw [Array.toList_push]
      · rfl
  | input => cases input <;> exact ⟨(List.append_nil _).symm, rfl⟩
  | moveLeft | moveRight | increment | decrement | loopOpen | loopClose =>
      exact ⟨(List.append_nil _).symm, rfl⟩

/-- **An executed instruction goes on with the record.** -/
theorem Recorded.perform (h : Recorded c input m seen) {i : Instruction}
    (ho : m.obstacle? i = none) :
    Recorded c input (m.perform i) (seen ++ [m.sighting i]) := by
  have hreplayed : Replay.after ⟨.blank c, input⟩
      ((seen ++ [m.sighting i]).map Sighting.instruction) = .ok (m.perform i).replay := by
    rw [List.map_append, ← Replay.step_replay ho]
    exact Replay.after_concat h.replayed i
  obtain ⟨houtput, hwritten⟩ := m.output_perform i
  refine ⟨fits_perform h.tape ho, hreplayed, ?_, ?_, ?_, ?_, ?_⟩
  · intro k x hk
    rcases Nat.lt_trichotomy k seen.length with hlt | rfl | hgt
    · -- the beginning of the record is what it was
      rw [List.getElem?_append_left hlt] at hk
      rw [List.take_append_of_le_length hlt]
      exact h.states k x hk
    · rw [List.getElem?_concat_length, Option.some_inj] at hk
      subst hk
      rw [List.take_of_length_le (by simp)]
      exact ⟨_, hreplayed, rfl, rfl⟩
    · rw [List.getElem?_eq_none (by simp; omega)] at hk
      cases hk
  · rw [houtput, h.output, outputs, outputs, outputs, List.filter_append, List.map_append]
  · rw [hwritten, h.bytesWritten, List.countP_append]
  · have hcount : [m.sighting i].countP (shows .input) = if i.command = .input then 1 else 0 := by
      simp [List.countP_singleton, shows, sighting]
    rw [List.countP_append, hcount]
    exact h.read.perform i
  · rw [displacement_concat]
    exact pointer_perform h.tape h.pointer ho

/-- The pointer is where it was seen last. -/
theorem Recorded.pointer_eq (h : Recorded c input m seen) :
    m.tape.pointer = (seen.getLast?.map Sighting.pointer).getD 0 := by
  obtain rfl | ⟨earlier, x, hseen⟩ := seen.eq_nil_or_concat
  · have hstart := Except.ok.inj h.replayed
    exact (congrArg (fun r => r.tape.pointer) hstart).symm
  · rw [List.concat_eq_append] at hseen
    subst hseen
    -- the whole record is the beginning of the record that ends with its last sighting
    obtain ⟨r, hr, hpointer, -⟩ := h.states earlier.length x List.getElem?_concat_length
    rw [List.take_of_length_le (by simp), h.replayed] at hr
    rw [List.getLast?_concat, Option.map_some, Option.getD_some, ← hpointer, ← Except.ok.inj hr]
    rfl

end Machine

end TapeLang
