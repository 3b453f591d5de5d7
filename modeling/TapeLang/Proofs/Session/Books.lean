import TapeLang.Proofs.Machine.Edges
import TapeLang.Proofs.Machine.Room
import TapeLang.Proofs.Session.Concatenation

/-!
# The books of a session

A session may run programs, replace them and work on the tape directly, in any order, and each of
these may be cut short: by the tape, by a delimiter, or by the watcher. Whatever happens, the
machine stays sound (`Machine.Sound`): the tape keeps its shape, the sink has received the output,
and the counters say what was put out and what was taken from the input. Counters and output only
grow (`Machine.GrowsTo`).

Both are kept by one instruction, by one pass through a loop and by one change of the tape. So they
are kept by a run however it ends, by a command, and by a whole history of commands
(`session_keeps_its_books`).
-/

set_option autoImplicit false

namespace TapeLang

namespace Machine

/-! ## Sound machines -/

/-- The tape of a machine fits its configuration, and the streams and counters agree with each other
and with the whole input. -/
structure Sound (c : TapeConfig) (input : List UInt8) (m : Machine) : Prop where
  /-- The tape is the configured one, with the pointer on it and nothing past its end. -/
  tape : m.tape.Fits c
  /-- The sink has received what was put out. -/
  sink : m.sink = some m.output
  /-- Every byte that was put out is counted. -/
  bytesWritten : m.stats.bytesWritten = m.output.size
  /-- Every byte that was taken from the input is counted. -/
  bytesRead : ∃ taken, input = taken ++ m.input ∧ m.stats.bytesRead = taken.length
  /-- No instruction puts out or takes more than one byte. -/
  steps : m.stats.bytesRead + m.stats.bytesWritten ≤ m.stats.steps

/-- The counters of `m'` are nowhere below those of `m`, and its output continues that of `m`. -/
structure GrowsTo (m m' : Machine) : Prop where
  steps : m.stats.steps ≤ m'.stats.steps
  loopIterations : m.stats.loopIterations ≤ m'.stats.loopIterations
  bytesRead : m.stats.bytesRead ≤ m'.stats.bytesRead
  bytesWritten : m.stats.bytesWritten ≤ m'.stats.bytesWritten
  output : m.output.toList <+: m'.output.toList

theorem GrowsTo.refl (m : Machine) : m.GrowsTo m :=
  ⟨Nat.le_refl _, Nat.le_refl _, Nat.le_refl _, Nat.le_refl _, List.prefix_refl _⟩

theorem GrowsTo.trans {m m' m'' : Machine} (h : m.GrowsTo m') (h' : m'.GrowsTo m'') :
    m.GrowsTo m'' where
  steps := Nat.le_trans h.steps h'.steps
  loopIterations := Nat.le_trans h.loopIterations h'.loopIterations
  bytesRead := Nat.le_trans h.bytesRead h'.bytesRead
  bytesWritten := Nat.le_trans h.bytesWritten h'.bytesWritten
  output := h.output.trans h'.output

variable {c : TapeConfig} {input : List UInt8} {m : Machine}

/-- A machine that has done nothing yet is sound. -/
theorem sound_start (c : TapeConfig) (input : List UInt8) : (start c input true).Sound c input where
  tape := .blank c
  sink := rfl
  bytesWritten := rfl
  bytesRead := ⟨[], rfl, rfl⟩
  steps := Nat.le_refl 0

/-! ## What one instruction does -/

/-- **An executed instruction leaves a sound machine sound.** -/
theorem Sound.perform (h : m.Sound c input) {i : Instruction} (ho : m.obstacle? i = none) :
    (m.perform i).Sound c input := by
  have htape := fits_perform h.tape ho
  obtain ⟨-, hsink, hwritten, ⟨taken, htaken, hread⟩, hsteps⟩ := h
  obtain ⟨tape, rest, output, sink, stats⟩ := m
  obtain ⟨command, index, offset⟩ := i
  dsimp only at hsink hwritten htaken hread hsteps
  cases command with
  | moveLeft | moveRight | increment | decrement | loopOpen | loopClose =>
      -- only the tape changes, and the instruction is counted
      exact ⟨htape, hsink, hwritten, ⟨taken, htaken, hread⟩, Nat.le_succ_of_le hsteps⟩
  | output =>
      refine ⟨htape, ?_, ?_, ⟨taken, htaken, hread⟩, ?_⟩
      · show sink.map (fun received => received.push tape.cell) = some (output.push tape.cell)
        rw [hsink]
        rfl
      · show stats.bytesWritten + 1 = (output.push tape.cell).size
        rw [hwritten, Array.size_push]
      · show stats.bytesRead + (stats.bytesWritten + 1) ≤ stats.steps + 1
        omega
  | input =>
      cases rest with
      | nil => exact ⟨htape, hsink, hwritten, ⟨taken, htaken, hread⟩, Nat.le_succ_of_le hsteps⟩
      | cons byte rest =>
          refine ⟨htape, hsink, hwritten, ⟨taken ++ [byte], ?_, ?_⟩, ?_⟩
          · show input = taken ++ [byte] ++ rest
            rw [htaken, List.append_assoc]
            rfl
          · show stats.bytesRead + 1 = (taken ++ [byte]).length
            rw [hread, List.length_append, List.length_singleton]
          · show stats.bytesRead + 1 + stats.bytesWritten ≤ stats.steps + 1
            omega

/-- An executed instruction sets no counter back and takes back no output. -/
theorem growsTo_perform (m : Machine) (i : Instruction) : m.GrowsTo (m.perform i) := by
  obtain ⟨tape, rest, output, sink, stats⟩ := m
  obtain ⟨command, index, offset⟩ := i
  cases command with
  | moveLeft | moveRight | increment | decrement | loopOpen | loopClose =>
      exact ⟨Nat.le_succ _, Nat.le_refl _, Nat.le_refl _, Nat.le_refl _, List.prefix_refl _⟩
  | output =>
      refine ⟨Nat.le_succ _, Nat.le_refl _, Nat.le_refl _, Nat.le_succ _, ?_⟩
      show output.toList <+: (output.push tape.cell).toList
      rw [Array.toList_push]
      exact List.prefix_append _ _
  | input =>
      cases rest with
      | nil =>
          exact ⟨Nat.le_succ _, Nat.le_refl _, Nat.le_refl _, Nat.le_refl _, List.prefix_refl _⟩
      | cons byte rest =>
          exact ⟨Nat.le_succ _, Nat.le_refl _, Nat.le_succ _, Nat.le_refl _, List.prefix_refl _⟩

theorem growsTo_iterate (m : Machine) : m.GrowsTo m.iterate :=
  ⟨Nat.le_refl _, Nat.le_succ _, Nat.le_refl _, Nat.le_refl _, List.prefix_refl _⟩

/-! ## What a run does -/

/-- The end of a run changes neither the tape nor what is counted. -/
theorem Sound.leave (h : m.Sound c input) (ending : Ending) : (ending.leave m).Sound c input := by
  cases ending <;> exact ⟨h.tape, h.sink, h.bytesWritten, h.bytesRead, h.steps⟩

theorem GrowsTo.leave {m' : Machine} (h : m.GrowsTo m') (ending : Ending) :
    m.GrowsTo (ending.leave m') := by
  cases ending <;> exact ⟨h.steps, h.loopIterations, h.bytesRead, h.bytesWritten, h.output⟩

/-- **A run leaves a sound machine sound**, in whichever way it ends and wherever it is cut off. -/
theorem Sound.run {σ : Type} (h : m.Sound c input) (watcher : Watcher σ) (watched : σ) (fuel : Nat)
    (p : Program) :
    (m.run watcher watched fuel p).machine.Sound c input ∧
      m.GrowsTo (m.run watcher watched fuel p).machine := by
  have hcourse := course_of_run (Eq.refl (m.run watcher watched fuel p))
  have hkept := hcourse.invariant (I := fun m' _ => m'.Sound c input ∧ m.GrowsTo m') ?_ ?_
    ⟨h, .refl m⟩
  · obtain ⟨m', ⟨hsound, hgrows⟩, hmachine⟩ := hkept
    rw [hmachine]
    exact ⟨hsound.leave _, hgrows.leave _⟩
  · rintro m' _ ⟨hsound, hgrows⟩
    refine ⟨?_, hgrows.trans m'.growsTo_iterate⟩
    exact ⟨hsound.tape, hsound.sink, hsound.bytesWritten, hsound.bytesRead, hsound.steps⟩
  · rintro m' _ i ⟨hsound, hgrows⟩ ho
    exact ⟨hsound.perform ho, hgrows.trans (m'.growsTo_perform i)⟩

/-- Another tape of the same shape makes no difference to the books. -/
theorem Sound.onTape (h : m.Sound c input) {f : Tape → Tape} (hf : (f m.tape).Fits c) :
    (m.onTape f).Sound c input ∧ m.GrowsTo (m.onTape f) := by
  refine ⟨⟨hf, h.sink, h.bytesWritten, h.bytesRead, h.steps⟩, ?_⟩
  exact ⟨Nat.le_refl _, Nat.le_refl _, Nat.le_refl _, Nat.le_refl _, List.prefix_refl _⟩

end Machine

/-! ## What a command does -/

/-- A tape keeps its shape under every command, with any arguments. -/
theorem Tape.Fits.obey {t : Tape} {c : TapeConfig} (h : t.Fits c) (command : TapeCommand) :
    (t.obey command).1.Fits c := by
  cases command with
  | read | length | snapshot | nonzero => exact h
  | write value => exact h.put _
  | move delta index =>
      simp only [Tape.obey, Tape.move]
      cases hfault : t.moveFault? delta index with
      | none => exact h.shift hfault
      | some f => exact h
  | add delta index =>
      simp only [Tape.obey, Tape.add]
      cases t.addFault? delta index with
      | none => exact h.put _
      | some f => exact h

theorem Tape.value_obeyLogged (t : Tape) (command : TapeCommand) :
    (t.obeyLogged command).value = t.obey command := by
  unfold obeyLogged
  generalize t.obey command = result
  obtain ⟨t', reply⟩ := result
  cases reply <;> rfl

/-- A command to a session, with the watcher and the number of moves for the run, if it is one. -/
structure Request where
  {σ : Type}
  watcher : Watcher σ
  watched : σ
  fuel : Nat
  command : SessionCommand

namespace Session

/-- The session after a request. -/
def serve (s : Session) (r : Request) : Session :=
  (s.obey r.watcher r.watched r.fuel r.command).value.1

/-- The session after a history of requests. -/
def after (s : Session) (requests : List Request) : Session :=
  requests.foldl serve s

/-- The machine after a request is that of a run, that with the tape after a command to it, or the
machine before the request. -/
theorem machine_serve (s : Session) (r : Request) :
    (s.serve r).machine = match r.command with
      | .run => (s.machine.run r.watcher r.watched r.fuel s.program).machine
      | .tape command => s.machine.onTape fun t => (t.obey command).1
      | .install _ | .load _ => s.machine := by
  obtain ⟨watcher, watched, fuel, command⟩ := r
  cases command with
  | run =>
      show (s.machine.runLogged watcher watched fuel s.program).value.machine = _
      rw [Machine.value_runLogged]
  | install program => rfl
  | load source =>
      simp only [serve, obey, Logged.value_bind]
      cases (parse source).value <;> rfl
  | tape command =>
      simp only [serve, obey, Logged.value_bind, Tape.value_obeyLogged]
      generalize hresult : s.machine.tape.obey command = result
      obtain ⟨t, reply⟩ := result
      have hmachine : s.machine.onTape (fun _ => t) =
          s.machine.onTape fun t => (t.obey command).1 := by
        obtain ⟨program, tape, input, output, sink, stats⟩ := s
        exact congrArg (Machine.mk · input output sink stats) (congrArg Prod.fst hresult).symm
      cases reply <;> exact hmachine

variable {c : TapeConfig} {input : List UInt8} {s : Session}

/-- **A request leaves a sound machine sound**, whether it is carried out or refused. -/
theorem sound_serve (h : s.machine.Sound c input) (r : Request) :
    (s.serve r).machine.Sound c input ∧ s.machine.GrowsTo (s.serve r).machine := by
  rw [machine_serve]
  cases r.command with
  | run => exact h.run r.watcher r.watched r.fuel s.program
  | tape command => exact h.onTape (h.tape.obey command)
  | install | load => exact ⟨h, .refl _⟩

/-- So does a history of requests. -/
theorem sound_after (h : s.machine.Sound c input) (requests : List Request) :
    (s.after requests).machine.Sound c input ∧ s.machine.GrowsTo (s.after requests).machine := by
  induction requests generalizing s with
  | nil => exact ⟨h, .refl _⟩
  | cons r requests ih =>
      obtain ⟨hsound, hgrows⟩ := sound_serve h r
      obtain ⟨hsound', hgrows'⟩ := ih hsound
      exact ⟨hsound', hgrows.trans hgrows'⟩

end Session

/-- **A session keeps its books.** Take any history of a session with a sink: runs of any programs
under any watchers, cut off or not, and commands to the tape with any arguments, each of which may
be refused. At every point of it the tape has the configured number of cells, which hold bytes, and
the pointer is on it; the sink has received exactly the output, all of which is counted; the bytes
counted as read are those taken from the input; and together they are no more than the executed
instructions. From any point of the history to a later one counters and output have only grown. -/
theorem session_keeps_its_books (program : Program) (config : TapeConfig) (input : List UInt8)
    (earlier later : List Request) :
    let s := (Session.mk program (.start config input true)).after earlier
    let s' := s.after later
    s'.machine.Sound config input ∧
      (s'.machine.tape.snapshot none none).length = config.length.cells ∧
      (∀ byte ∈ s'.machine.tape.snapshot none none, byte.toNat ≤ 255) ∧
      s'.machine.tape.pointer < config.length.cells ∧
      s.machine.GrowsTo s'.machine := by
  intro s s'
  obtain ⟨hsound, -⟩ := Session.sound_after (s := ⟨program, .start config input true⟩)
    (Machine.sound_start config input) earlier
  obtain ⟨hsound', hgrows⟩ := Session.sound_after hsound later
  refine ⟨hsound', ?_, ?_, hsound'.tape.pointer_lt, hgrows⟩
  · rw [Tape.snapshot_all, List.length_map, List.length_range, hsound'.tape.size_eq]
  · intro byte _
    exact Nat.le_of_lt_succ byte.toNat_lt

end TapeLang
