import TapeLang.Proofs.Machine.Sightings

/-!
# Reading to the end of the input and beyond

At the end of the input a read stores zero and is not counted, where otherwise it takes a byte and is
counted. A program cannot tell the two apart: a read stores the next byte of the input with zeros
after it for ever (`Machine.tape_absorb`), and the count is not something it can look at.

So what a run does depends on as many bytes of that endless input as it makes reads, and on nothing
else (`end_of_input_is_zeros`).
-/

set_option autoImplicit false

namespace TapeLang

/-- The number of reads among some sightings. -/
def readsOf (seen : Array Sighting) : Nat :=
  seen.countP fun x => x.instruction.command == .input

/-- The number of reads that the run of a program makes within a number of moves. -/
def Machine.reads (m : Machine) (p : Program) (fuel : Nat) : Nat :=
  readsOf (m.run (.recording none) #[] fuel p).watched

theorem readsOf_push (seen : Array Sighting) (m : Machine) (i : Instruction) :
    readsOf (seen.push (m.sighting i)) =
      readsOf seen + if i.command = .input then 1 else 0 := by
  simp [readsOf, Array.countP_push, Machine.sighting]

/-! ## Two machines with different inputs -/

namespace Machine

/-- After `n` reads of an input: the first bytes are taken and counted, as far as there are any. -/
structure HasRead (m : Machine) (input : List UInt8) (n : Nat) : Prop where
  input_eq : m.input = input.drop n
  bytesRead_eq : m.stats.bytesRead = min n input.length

/-- Two machines differ in nothing but their input and in the count of what was read of it. -/
structure SameButInput (m m' : Machine) : Prop where
  tape : m'.tape = m.tape
  output : m'.output = m.output
  sink : m'.sink = m.sink
  stats : m'.stats = { m.stats with bytesRead := m'.stats.bytesRead }

variable {m m' : Machine} {input : List UInt8} {n : Nat}

/-- A read stores the next byte of the input, or zero at its end. -/
theorem tape_absorb (m : Machine) : m.absorb.tape = m.tape.put (m.input.headD 0) := by
  obtain ⟨tape, input, output, sink, stats⟩ := m
  cases input with
  | nil => rfl
  | cons byte input => rfl

theorem HasRead.next_byte (h : m.HasRead input n) : m.input.headD 0 = input.getD n 0 := by
  rw [h.input_eq, List.headD_eq_head?_getD, List.head?_drop, List.getD_eq_getElem?_getD]

theorem HasRead.absorb (h : m.HasRead input n) : m.absorb.HasRead input (n + 1) := by
  obtain ⟨hinput, hcount⟩ := h
  obtain ⟨tape, rest, output, sink, stats⟩ := m
  dsimp only at hinput hcount
  cases rest with
  | nil =>
      -- nothing is taken, and nothing is counted
      have hend : input.length ≤ n := List.drop_eq_nil_iff.1 hinput.symm
      refine ⟨(List.drop_eq_nil_of_le (by omega)).symm, ?_⟩
      show stats.bytesRead = _
      omega
  | cons byte rest =>
      have hlt : n < input.length := by
        refine Nat.lt_of_not_le fun hend => ?_
        rw [List.drop_eq_nil_of_le hend] at hinput
        cases hinput
      refine ⟨?_, ?_⟩
      · show rest = _
        rw [← List.tail_drop, ← hinput]
        rfl
      · show stats.bytesRead + 1 = _
        omega

/-- Only a read makes progress in the input. -/
theorem HasRead.perform (h : m.HasRead input n) (i : Instruction) :
    (m.perform i).HasRead input (n + if i.command = .input then 1 else 0) := by
  obtain ⟨command, index, offset⟩ := i
  cases command with
  | input => exact ⟨h.absorb.input_eq, h.absorb.bytesRead_eq⟩
  | moveLeft | moveRight | increment | decrement | output | loopOpen | loopClose =>
      exact ⟨h.input_eq, h.bytesRead_eq⟩

namespace SameButInput

theorem obstacle?_eq (h : m.SameButInput m') (i : Instruction) :
    m'.obstacle? i = m.obstacle? i := by
  simp only [obstacle?, h.tape]

theorem iterate (h : m.SameButInput m') : m.iterate.SameButInput m'.iterate := by
  refine ⟨h.tape, h.output, h.sink, ?_⟩
  show { m'.stats with loopIterations := m'.stats.loopIterations + 1 } = _
  rw [h.stats]
  rfl

theorem settle (h : m.SameButInput m') : m.settle.SameButInput m'.settle := by
  refine ⟨h.tape, h.output, h.sink, ?_⟩
  show { m'.stats with finalPointer := m'.tape.pointer } = _
  rw [h.stats, h.tape]
  rfl

/-- The machines stay alike, as long as the next bytes are the same where one is read. -/
theorem perform (h : m.SameButInput m') {i : Instruction}
    (hnext : i.command = .input → m'.input.headD 0 = m.input.headD 0) :
    (m.perform i).SameButInput (m'.perform i) := by
  have htape : i.command = .input → m'.absorb.tape = m.absorb.tape := by
    intro hi
    rw [tape_absorb, tape_absorb, h.tape, hnext hi]
  obtain ⟨command, index, offset⟩ := i
  obtain ⟨tape, input, output, sink, stats⟩ := m
  obtain ⟨tape', input', output', sink', stats'⟩ := m'
  obtain ⟨rfl, rfl, rfl, hstats⟩ := h
  dsimp only at hstats htape
  generalize stats'.bytesRead = count at hstats
  subst hstats
  cases command with
  | input =>
      -- whether there is a byte to take or not, the tape gets the same
      cases input <;> cases input' <;> exact ⟨htape rfl, rfl, rfl, rfl⟩
  | moveLeft | moveRight | increment | decrement | output | loopOpen | loopClose =>
      exact ⟨rfl, rfl, rfl, rfl⟩

end SameButInput

end Machine

/-! ## Two runs on different inputs -/

/-- What a run does is decided by as many bytes as it reads, if zeros follow the input for ever. -/
theorem simulation_reading (input input' : List UInt8) :
    Simulation (.recording none) (.recording none) .same
      (fun seen => ∀ k < readsOf seen, input'.getD k 0 = input.getD k 0)
      fun m seen m' seen' => seen' = seen ∧ m.SameButInput m' ∧
        m.HasRead input (readsOf seen) ∧ m'.HasRead input' (readsOf seen) where
  within := by
    intro m seen i h k hk
    rw [Watcher.after_recording_none, readsOf_push] at h
    exact h k (by omega)
  cell_eq := by
    rintro m _ m' seen ⟨rfl, hsame, -⟩
    rw [hsame.tape]
  iterate := by
    rintro m _ m' seen ⟨rfl, hsame, hread, hread'⟩
    exact ⟨rfl, hsame.iterate, ⟨hread.input_eq, hread.bytesRead_eq⟩,
      ⟨hread'.input_eq, hread'.bytesRead_eq⟩⟩
  accepts := by
    rintro m _ m' seen i ⟨rfl, hsame, -⟩ ho _
    exact (hsame.obstacle?_eq i).trans ho
  halts_eq := by
    intro m _ m' seen i _ _ _
    rfl
  perform := by
    rintro m _ m' seen i ⟨rfl, hsame, hread, hread'⟩ _ hw
    rw [Watcher.after_recording_none, readsOf_push] at hw
    -- if this is a read, its byte is among those that are the same in both inputs
    have hsame' : (m.perform i).SameButInput (m'.perform i) := by
      apply hsame.perform
      intro hi
      rw [hread.next_byte, hread'.next_byte]
      exact hw _ (by simp [hi])
    have hsighting : m'.sighting i = m.sighting i := by
      rw [Machine.sighting, hsame'.tape]
      rfl
    refine ⟨?_, hsame', ?_, ?_⟩
    · show seen.push (m'.sighting i) = seen.push (m.sighting i)
      rw [hsighting]
    · rw [Watcher.after_recording_none, readsOf_push]
      exact hread.perform i
    · rw [Watcher.after_recording_none, readsOf_push]
      exact hread'.perform i

/-- Two runs on different inputs are the same in everything else, and both have made `n` reads. -/
structure Run.SameButInput (input input' : List UInt8) (n : Nat) (r r' : Run Unit) : Prop where
  ending : r'.ending = r.ending
  machine : r.machine.SameButInput r'.machine
  hasRead : r.machine.HasRead input n
  hasRead' : r'.machine.HasRead input' n

namespace Machine

variable {p : Program} {config : TapeConfig} {hasSink : Bool} {fuel : Nat}
  {input input' : List UInt8}

theorem hasRead_start (config : TapeConfig) (input : List UInt8) (hasSink : Bool) :
    (start config input hasSink).HasRead input 0 :=
  ⟨rfl, (Nat.zero_min _).symm⟩

theorem HasRead.leave {m : Machine} {n : Nat} (h : m.HasRead input n) (ending : Ending) :
    (ending.leave m).HasRead input n := by
  cases ending <;> exact ⟨h.input_eq, h.bytesRead_eq⟩

theorem SameButInput.leave {m m' : Machine} (h : m.SameButInput m') (ending : Ending) :
    (ending.leave m).SameButInput (ending.leave m') := by
  cases ending with
  | finished => exact h.settle
  | blocked | halted | outOfFuel => exact h

/-- As many bytes as a run reads decide what it does. -/
theorem run_sameButInput
    (h : ∀ k < (start config input hasSink).reads p fuel, input'.getD k 0 = input.getD k 0) :
    Run.SameButInput input input' ((start config input hasSink).reads p fuel)
      ((start config input hasSink).run .idle () fuel p)
      ((start config input' hasSink).run .idle () fuel p) := by
  unfold reads at h ⊢
  generalize hr : (start config input hasSink).run (.recording none) #[] fuel p = r at h ⊢
  have hstart : (start config input hasSink).SameButInput (start config input' hasSink) :=
    ⟨rfl, rfl, rfl, rfl⟩
  obtain ⟨m, m', _, ⟨rfl, hsame, hread, hread'⟩, hmachine, hrun⟩ :=
    (simulation_reading input input').run_of_refuses (f := id) (s := #[])
      (fun hR ho => (hR.2.1.obstacle?_eq _).trans ho) p.body.relabel_same.symm
      ⟨rfl, hstart, hasRead_start config input hasSink, hasRead_start config input' hasSink⟩ hr h
  rw [run_of_recorded hr, run_of_recorded hrun, hmachine, Ending.map_id]
  exact ⟨rfl, hsame.leave _, hread.leave _, hread'.leave _⟩

end Machine

/-! ## Inputs with zeros after them -/

theorem getD_append_zeros (input : List UInt8) (zeros k : Nat) :
    (input ++ List.replicate zeros 0).getD k 0 = input.getD k 0 := by
  rw [List.getD_eq_getElem?_getD, List.getD_eq_getElem?_getD]
  rcases Nat.lt_or_ge k input.length with hlt | hge
  · rw [List.getElem?_append_left hlt]
  · rw [List.getElem?_append_right hge, List.getElem?_eq_none hge, List.getElem?_replicate]
    split <;> rfl

theorem getD_eq_of_take_eq {input input' : List UInt8} {n k : Nat}
    (h : input'.take n = input.take n) (hk : k < n) : input'.getD k 0 = input.getD k 0 := by
  have hbyte : (input'.take n)[k]? = (input.take n)[k]? := by rw [h]
  rw [List.getElem?_take_of_lt hk, List.getElem?_take_of_lt hk] at hbyte
  rw [List.getD_eq_getElem?_getD, List.getD_eq_getElem?_getD, hbyte]

/-- **The end of the input is an endless stream of zeros.** A run that makes `n` reads is the same on
all inputs whose first `n` bytes are the same when zeros follow the input for ever; and each of the
runs takes and counts as many of the `n` bytes as its input has. So it makes no difference to append
zeros, or to change the input after its first `n` bytes. -/
theorem end_of_input_is_zeros (p : Program) (config : TapeConfig) (hasSink : Bool)
    (input : List UInt8) (fuel : Nat) :
    let run := fun input => (Machine.start config input hasSink).run .idle () fuel p
    let n := (Machine.start config input hasSink).reads p fuel
    (∀ input', (∀ k < n, input'.getD k 0 = input.getD k 0) →
      Run.SameButInput input input' n (run input) (run input')) ∧
    (∀ zeros, Run.SameButInput input (input ++ List.replicate zeros 0) n (run input)
      (run (input ++ List.replicate zeros 0))) ∧
    (∀ input', input'.take n = input.take n →
      Run.SameButInput input input' n (run input) (run input')) := by
  intro run n
  refine ⟨?_, ?_, ?_⟩
  · intro input' h
    exact Machine.run_sameButInput h
  · intro zeros
    apply Machine.run_sameButInput
    intro k _
    exact getD_append_zeros input zeros k
  · intro input' h
    apply Machine.run_sameButInput
    intro k hk
    exact getD_eq_of_take_eq h hk

/-- A program that puts out what it reads up to the first zero, `,[.,]`. -/
def Program.echo : Program where
  body := .instr ⟨.input, 0, 0⟩
    (.loop (.instr ⟨.output, 2, 2⟩ (.instr ⟨.input, 3, 3⟩ .nil)) 1 4 .nil)
  instructionCount := 5

/-- Whether a zero ends the text or the input does, an echo is the same; but only the zero is
counted. -/
theorem echo_stops_at_zero_or_end :
    ∃ m m', (Machine.start {} [7] false).run .idle () 9 .echo = ⟨.finished, m, ()⟩ ∧
      (Machine.start {} [7, 0, 5] false).run .idle () 9 .echo = ⟨.finished, m', ()⟩ ∧
      m.SameButInput m' ∧ m.HasRead [7] 2 ∧ m'.HasRead [7, 0, 5] 2 := by
  have hreads : (Machine.start {} [7] false).reads .echo 9 = 2 := rfl
  obtain ⟨hsame, -, -⟩ := end_of_input_is_zeros .echo {} false [7] 9
  rw [hreads] at hsame
  obtain ⟨-, hmachine, hread, hread'⟩ := hsame [7, 0, 5] (by decide)
  exact ⟨_, _, rfl, rfl, hmachine, hread, hread'⟩

end TapeLang
