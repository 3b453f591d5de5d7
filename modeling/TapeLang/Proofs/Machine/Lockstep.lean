import TapeLang.Machine.Run

/-!
# Runs in lockstep

What a running program does next is decided by its frames and by whether the cell under the pointer
is zero (`demand`). `Course` says all that a run can do in these terms, one rule for each way to meet
a demand, and it is the graph of `Execution.run` (`course_run`, `Course.run_eq`).

So a program makes the same moves on two machines for as long as their cells and what they refuse do
not tell them apart. `Simulation` is such a relation between machines, stated for one instruction at
a time, and `Simulation.run` follows two runs side by side up to the end of the first. The two
programs need not be equal either: a relabelling gives the instructions and loops of a program other
labels and keeps its shape, and frames demand the same under any labels (`demand_relabel`).
-/

set_option autoImplicit false

namespace TapeLang

/-! ## Demands -/

/-- What a stack of frames demands of the machine. -/
inductive Demand where
  /-- Nothing, because nothing is left. -/
  | finish
  /-- To go on with other frames. -/
  | proceed (frames : List Frame)
  /-- To count a pass through a loop, and go on with its frame. -/
  | pass (frames : List Frame)
  /-- To execute an instruction, and go on after it. -/
  | execute (i : Instruction) (frames : List Frame)

/-- The demand of a stack of frames, given whether the cell under the pointer is zero. -/
def demand (zero : Bool) : List Frame → Demand
  | [] => .finish
  | ⟨.nil, none⟩ :: outer => .proceed outer
  | ⟨.nil, some inner⟩ :: outer =>
      if zero then .proceed outer else .pass (⟨inner, some inner⟩ :: outer)
  | ⟨.loop inner _ _ rest, again⟩ :: outer =>
      if zero then .proceed (⟨rest, again⟩ :: outer)
      else .pass (⟨inner, some inner⟩ :: ⟨rest, again⟩ :: outer)
  | ⟨.instr i rest, again⟩ :: outer => .execute i (⟨rest, again⟩ :: outer)

variable {σ τ : Type}

/-- What is seen of the execution of an instruction. -/
def Machine.sighting (m : Machine) (i : Instruction) : Sighting :=
  ⟨i, (m.perform i).tape.pointer, (m.perform i).tape.cell⟩

/-- What a watcher makes of the execution of an instruction. -/
def Watcher.after (watcher : Watcher σ) (s : σ) (m : Machine) (i : Instruction) : σ × Bool :=
  watcher s (m.sighting i)

/-! ## Courses -/

/-- The course of a run with a permitted number of moves. -/
inductive Course (watcher : Watcher σ) : Nat → List Frame → Machine → σ → Run σ → Prop where
  | out (frames : List Frame) (m : Machine) (s : σ) :
      Course watcher 0 frames m s ⟨.outOfFuel, m, s⟩
  | finish {fuel : Nat} {frames : List Frame} {m : Machine} {s : σ} :
      demand (m.tape.cell == 0) frames = .finish →
        Course watcher (fuel + 1) frames m s ⟨.finished, m.settle, s⟩
  | proceed {fuel : Nat} {frames frames' : List Frame} {m : Machine} {s : σ} {r : Run σ} :
      demand (m.tape.cell == 0) frames = .proceed frames' →
        Course watcher fuel frames' m s r → Course watcher (fuel + 1) frames m s r
  | pass {fuel : Nat} {frames frames' : List Frame} {m : Machine} {s : σ} {r : Run σ} :
      demand (m.tape.cell == 0) frames = .pass frames' →
        Course watcher fuel frames' m.iterate s r → Course watcher (fuel + 1) frames m s r
  /-- An obstacle ends the run and changes nothing. -/
  | refused {fuel : Nat} {frames frames' : List Frame} {m : Machine} {s : σ} {i : Instruction}
      {o : Obstacle} :
      demand (m.tape.cell == 0) frames = .execute i frames' → m.obstacle? i = some o →
        Course watcher (fuel + 1) frames m s ⟨.blocked o, m, s⟩
  /-- The watcher ends the run after an instruction. -/
  | halted {fuel : Nat} {frames frames' : List Frame} {m : Machine} {s s' : σ} {i : Instruction} :
      demand (m.tape.cell == 0) frames = .execute i frames' → m.obstacle? i = none →
        watcher.after s m i = (s', true) →
          Course watcher (fuel + 1) frames m s ⟨.halted, m.perform i, s'⟩
  /-- The run goes on after an instruction. -/
  | executed {fuel : Nat} {frames frames' : List Frame} {m : Machine} {s s' : σ} {i : Instruction}
      {r : Run σ} :
      demand (m.tape.cell == 0) frames = .execute i frames' → m.obstacle? i = none →
        watcher.after s m i = (s', false) → Course watcher fuel frames' (m.perform i) s' r →
          Course watcher (fuel + 1) frames m s r

/-- **Every run takes its course.** -/
theorem course_run (watcher : Watcher σ) (fuel : Nat) (frames : List Frame) (m : Machine) (s : σ) :
    Course watcher fuel frames m s (Execution.run watcher fuel ⟨frames, m, s⟩) := by
  induction fuel generalizing frames m s with
  | zero => exact .out frames m s
  | succ fuel ih =>
      match frames with
      | [] => exact .finish rfl
      | ⟨.nil, none⟩ :: outer => exact .proceed rfl (ih outer m s)
      | ⟨.nil, some inner⟩ :: outer =>
          by_cases hcell : m.tape.cell = 0
          · simp only [Execution.run, Execution.step, if_pos hcell]
            exact .proceed (by simp [demand, hcell]) (ih outer m s)
          · simp only [Execution.run, Execution.step, if_neg hcell]
            exact .pass (by simp [demand, hcell]) (ih _ m.iterate s)
      | ⟨.loop inner openIndex closeIndex rest, again⟩ :: outer =>
          by_cases hcell : m.tape.cell = 0
          · simp only [Execution.run, Execution.step, if_pos hcell]
            exact .proceed (by simp [demand, hcell]) (ih _ m s)
          · simp only [Execution.run, Execution.step, if_neg hcell]
            exact .pass (by simp [demand, hcell]) (ih _ m.iterate s)
      | ⟨.instr i rest, again⟩ :: outer =>
          simp only [Execution.run, Execution.step]
          cases ho : m.obstacle? i with
          | some o => exact .refused rfl ho
          | none =>
              cases hafter : watcher.after s m i with
              | mk s' halt =>
                  have hshown : watcher s ⟨i, (m.perform i).tape.pointer,
                      (m.perform i).tape.cell⟩ = (s', halt) := hafter
                  simp only [hshown]
                  cases halt with
                  | true => exact .halted rfl ho hafter
                  | false => exact .executed rfl ho hafter (ih _ (m.perform i) s')

/-- The course of the run of a program. -/
theorem course_of_run {watcher : Watcher σ} {s : σ} {fuel : Nat} {p : Program} {m : Machine}
    {r : Run σ} (h : m.run watcher s fuel p = r) :
    Course watcher fuel [{ rest := p.body }] m s r := by
  subst h
  exact course_run watcher fuel [{ rest := p.body }] m s

/-- **A run takes no other course.** -/
theorem Course.run_eq {watcher : Watcher σ} {fuel : Nat} {frames : List Frame} {m : Machine}
    {s : σ} {r : Run σ} (h : Course watcher fuel frames m s r) :
    Execution.run watcher fuel ⟨frames, m, s⟩ = r := by
  have hrun := course_run watcher fuel frames m s
  generalize Execution.run watcher fuel ⟨frames, m, s⟩ = r' at hrun
  -- the demand decides which rule applies, so that the two courses use the same rules
  induction h generalizing r' with
  | out frames m s =>
      cases hrun
      rfl
  | finish hd => cases hrun <;> simp_all
  | proceed hd _ ih => cases hrun <;> simp_all
  | pass hd _ ih => cases hrun <;> simp_all
  | refused hd ho => cases hrun <;> simp_all
  | halted hd ho ha => cases hrun <;> simp_all
  | executed hd ho ha _ ih => cases hrun <;> simp_all

/-! ## Invariants -/

/-- What the end of a run does to the machine: a finished run notes where the pointer stands. -/
def Ending.leave : Ending → Machine → Machine
  | .finished, m => m.settle
  | .blocked _, m | .halted, m | .outOfFuel, m => m

/-- **What every pass and every instruction keeps is kept by a run.** -/
theorem Course.invariant {watcher : Watcher σ} {I : Machine → σ → Prop}
    (iterate : ∀ {m s}, I m s → I m.iterate s)
    (perform : ∀ {m s i}, I m s → m.obstacle? i = none →
      I (m.perform i) (watcher.after s m i).1)
    {fuel : Nat} {frames : List Frame} {m : Machine} {s : σ} {r : Run σ}
    (h : Course watcher fuel frames m s r) (hI : I m s) :
    ∃ m', I m' r.watched ∧ r.machine = r.ending.leave m' := by
  induction h with
  | out frames m s => exact ⟨m, hI, rfl⟩
  | @finish fuel frames m s hd => exact ⟨m, hI, rfl⟩
  | proceed _ _ ih => exact ih hI
  | pass _ _ ih => exact ih (iterate hI)
  | @refused fuel frames frames' m s i o hd ho => exact ⟨m, hI, rfl⟩
  | @halted fuel frames frames' m s s' i hd ho ha =>
      have hI' := perform hI ho
      rw [ha] at hI'
      exact ⟨m.perform i, hI', rfl⟩
  | @executed fuel frames frames' m s s' i r hd ho ha _ ih =>
      have hI' := perform hI ho
      rw [ha] at hI'
      exact ih hI'

/-- A watcher who never calls a halt halts no run. -/
theorem Course.ne_halted {watcher : Watcher σ} (hw : ∀ s m i, (watcher.after s m i).2 = false)
    {fuel : Nat} {frames : List Frame} {m : Machine} {s : σ} {r : Run σ}
    (h : Course watcher fuel frames m s r) : r.ending ≠ .halted := by
  induction h with
  | out | finish | refused => simp
  | proceed _ _ ih | pass _ _ ih | executed _ _ _ _ ih => exact ih
  | @halted fuel frames frames' m s s' i _ _ ha =>
      have hnever := hw s m i
      rw [ha] at hnever
      cases hnever

/-! ## Relabelling -/

/-- Other labels for the instructions and for the delimiters of loops. -/
structure Relabelling where
  instruction : Instruction → Instruction
  index : Int → Int

/-- Every label as it is. -/
def Relabelling.same : Relabelling := ⟨id, id⟩

/-- A relabelling that keeps the commands, and treats indices alike wherever they stand. -/
structure Relabelling.Faithful (l : Relabelling) : Prop where
  command_eq : ∀ i, (l.instruction i).command = i.command
  index_eq : ∀ i, (l.instruction i).index = l.index i.index

/-- The labels after `n` further instructions and `d` further characters. -/
def Relabelling.shift (n d : Int) : Relabelling where
  instruction i := { i with index := i.index + n, offset := i.offset + d }
  index k := k + n

theorem Relabelling.faithful_shift (n d : Int) : (shift n d).Faithful :=
  ⟨fun _ => rfl, fun _ => rfl⟩

/-- A body with other labels. -/
def Body.relabel (l : Relabelling) : Body → Body
  | nil => nil
  | instr i rest => instr (l.instruction i) (rest.relabel l)
  | loop inner openIndex closeIndex rest =>
      loop (inner.relabel l) (l.index openIndex) (l.index closeIndex) (rest.relabel l)

/-- What is left of a pass, with other labels. -/
def Frame.relabel (l : Relabelling) : Frame → Frame
  | ⟨rest, again⟩ => ⟨rest.relabel l, again.map (Body.relabel l)⟩

/-- A demand with other labels. -/
def Demand.relabel (l : Relabelling) : Demand → Demand
  | .finish => .finish
  | .proceed frames => .proceed (frames.map (Frame.relabel l))
  | .pass frames => .pass (frames.map (Frame.relabel l))
  | .execute i frames => .execute (l.instruction i) (frames.map (Frame.relabel l))

@[simp] theorem Body.relabel_same (b : Body) : b.relabel .same = b := by
  induction b with
  | nil => rfl
  | instr i rest ih =>
      show instr i (rest.relabel .same) = _
      rw [ih]
  | loop inner openIndex closeIndex rest ihInner ihRest =>
      show loop (inner.relabel .same) openIndex closeIndex (rest.relabel .same) = _
      rw [ihInner, ihRest]

/-- **Frames demand the same under any labels.** -/
theorem demand_relabel (l : Relabelling) (zero : Bool) (frames : List Frame) :
    demand zero (frames.map (Frame.relabel l)) = (demand zero frames).relabel l := by
  match frames, zero with
  | [], _ => rfl
  | ⟨.nil, none⟩ :: outer, _ => rfl
  | ⟨.nil, some inner⟩ :: outer, true => rfl
  | ⟨.nil, some inner⟩ :: outer, false => rfl
  | ⟨.loop inner openIndex closeIndex rest, again⟩ :: outer, true => rfl
  | ⟨.loop inner openIndex closeIndex rest, again⟩ :: outer, false => rfl
  | ⟨.instr i rest, again⟩ :: outer, _ => rfl

/-! ## Simulation -/

/-- A relation between watched machines that a program on the one and its relabelling on the other
cannot break. It has to last only while the watcher of the first is within bounds. -/
structure Simulation (watcher : Watcher σ) (watcher' : Watcher τ) (l : Relabelling)
    (Within : σ → Prop) (R : Machine → σ → Machine → τ → Prop) : Prop where
  /-- A watcher who is within bounds was so before. -/
  within : ∀ {m s i}, Within (watcher.after s m i).1 → Within s
  /-- Loops make the same decisions. -/
  cell_eq : ∀ {m s m' s'}, R m s m' s' → m'.tape.cell = m.tape.cell
  iterate : ∀ {m s m' s'}, R m s m' s' → R m.iterate s m'.iterate s'
  /-- What the first machine accepts, the second accepts as well. -/
  accepts : ∀ {m s m' s' i}, R m s m' s' → m.obstacle? i = none →
    Within (watcher.after s m i).1 → m'.obstacle? (l.instruction i) = none
  /-- The watchers agree on when to halt. -/
  halts_eq : ∀ {m s m' s' i}, R m s m' s' → m.obstacle? i = none →
    Within (watcher.after s m i).1 →
      (watcher'.after s' m' (l.instruction i)).2 = (watcher.after s m i).2
  perform : ∀ {m s m' s' i}, R m s m' s' → m.obstacle? i = none →
    Within (watcher.after s m i).1 →
      R (m.perform i) (watcher.after s m i).1 (m'.perform (l.instruction i))
        (watcher'.after s' m' (l.instruction i)).1

/-- The second of two runs side by side, seen from the end of the first. -/
inductive Beside (watcher' : Watcher τ) (l : Relabelling) (R : Machine → σ → Machine → τ → Prop) :
    Run σ → Run τ → Prop where
  /-- Unless the first was refused an instruction, the second has ended in the same way. -/
  | alike (ending : Ending) {m m' : Machine} {s : σ} {s' : τ} :
      (∀ o, ending ≠ .blocked o) → R m s m' s' →
        Beside watcher' l R ⟨ending, ending.leave m, s⟩ ⟨ending, ending.leave m', s'⟩
  /-- If it was, the second was about to execute the same instruction. -/
  | refused {i : Instruction} {o : Obstacle} {fuel : Nat} {frames frames' : List Frame}
      {m m' : Machine} {s : σ} {s' : τ} {r' : Run τ} :
      m.obstacle? i = some o → R m s m' s' →
        demand (m'.tape.cell == 0) frames = .execute (l.instruction i) frames' →
          Course watcher' (fuel + 1) frames m' s' r' → Beside watcher' l R ⟨.blocked o, m, s⟩ r'

/-- An ending with other words for the obstacle, if there is one. -/
def Ending.map (f : Obstacle → Obstacle) : Ending → Ending
  | .blocked o => .blocked (f o)
  | .finished => .finished
  | .halted => .halted
  | .outOfFuel => .outOfFuel

@[simp] theorem Ending.map_id (e : Ending) : e.map id = e := by
  cases e <;> rfl

namespace Simulation

variable {watcher : Watcher σ} {watcher' : Watcher τ} {l : Relabelling} {Within : σ → Prop}
  {R : Machine → σ → Machine → τ → Prop}

/-- A watcher who is within bounds at the end of a run was so from the beginning. -/
theorem within_of_course (h : Simulation watcher watcher' l Within R) {fuel : Nat}
    {frames : List Frame} {m : Machine} {s : σ} {r : Run σ}
    (hc : Course watcher fuel frames m s r) (hw : Within r.watched) : Within s := by
  induction hc with
  | out | finish | refused => exact hw
  | proceed _ _ ih => exact ih hw
  | pass _ _ ih => exact ih hw
  | halted _ _ ha =>
      apply h.within
      rw [ha]
      exact hw
  | executed _ _ ha _ ih =>
      apply h.within
      rw [ha]
      exact ih hw

/-- A run beside a course. -/
theorem beside_course (h : Simulation watcher watcher' l Within R) {fuel : Nat}
    {frames : List Frame} {m m' : Machine} {s : σ} {s' : τ} {r : Run σ}
    (hc : Course watcher fuel frames m s r) (hR : R m s m' s') (hw : Within r.watched) :
    Beside watcher' l R r
      (Execution.run watcher' fuel ⟨frames.map (Frame.relabel l), m', s'⟩) := by
  -- the frames of the second run make the same demand all along
  have hdemand : ∀ {frames m s m' s'}, R m s m' s' →
      demand (m'.tape.cell == 0) (frames.map (Frame.relabel l)) =
        (demand (m.tape.cell == 0) frames).relabel l := by
    intro frames m s m' s' hR
    rw [h.cell_eq hR, demand_relabel]
  induction hc generalizing m' s' with
  | out frames m s => exact .alike .outOfFuel (by simp) hR
  | finish hd =>
      rw [Course.run_eq (.finish (by rw [hdemand hR, hd]; rfl))]
      exact .alike .finished (by simp) hR
  | proceed hd _ ih =>
      rw [Course.run_eq (.proceed (by rw [hdemand hR, hd]; rfl) (course_run ..))]
      exact ih hR hw
  | pass hd _ ih =>
      rw [Course.run_eq (.pass (by rw [hdemand hR, hd]; rfl) (course_run ..))]
      exact ih (h.iterate hR) hw
  | refused hd ho =>
      exact .refused ho hR (by rw [hdemand hR, hd]; rfl) (course_run ..)
  | @halted fuel frames frames' m s s₁ i hd ho ha =>
      have hw₁ : Within (watcher.after s m i).1 := by
        rw [ha]
        exact hw
      have hhalts := h.halts_eq hR ho hw₁
      have hR₁ := h.perform hR ho hw₁
      rw [ha] at hhalts hR₁
      rw [Course.run_eq (.halted (by rw [hdemand hR, hd]; rfl) (h.accepts hR ho hw₁)
        (Prod.ext rfl hhalts))]
      exact .alike .halted (by simp) hR₁
  | @executed fuel frames frames' m s s₁ i r hd ho ha hcourse ih =>
      have hw₁ : Within (watcher.after s m i).1 := by
        rw [ha]
        exact h.within_of_course hcourse hw
      have hhalts := h.halts_eq hR ho hw₁
      have hR₁ := h.perform hR ho hw₁
      rw [ha] at hhalts hR₁
      rw [Course.run_eq (.executed (by rw [hdemand hR, hd]; rfl) (h.accepts hR ho hw₁)
        (Prod.ext rfl hhalts) (course_run ..))]
      exact ih hR₁ hw

variable {p p' : Program} {fuel : Nat} {m m' : Machine} {s : σ} {t : τ} {r : Run σ}

/-- **Two runs side by side.** Whatever the run of a program does, the run of its relabelling does as
well, up to the end of the first. -/
theorem run (h : Simulation watcher watcher' l Within R) (hp : p'.body = p.body.relabel l)
    (hR : R m s m' t) (hr : m.run watcher s fuel p = r) (hw : Within r.watched) :
    Beside watcher' l R r (m'.run watcher' t fuel p') := by
  have hbeside := h.beside_course (course_of_run hr) hR hw
  rw [Machine.run, hp]
  exact hbeside

/-- If the second machine also refuses what the first refuses, the second run ends as the first
does. -/
theorem run_of_refuses (h : Simulation watcher watcher' l Within R) {f : Obstacle → Obstacle}
    (refuses : ∀ {m s m' s' i o}, R m s m' s' → m.obstacle? i = some o →
      m'.obstacle? (l.instruction i) = some (f o))
    (hp : p'.body = p.body.relabel l) (hR : R m s m' t) (hr : m.run watcher s fuel p = r)
    (hw : Within r.watched) :
    ∃ m₁ m₁' s₁', R m₁ r.watched m₁' s₁' ∧ r.machine = r.ending.leave m₁ ∧
      m'.run watcher' t fuel p' = ⟨r.ending.map f, r.ending.leave m₁', s₁'⟩ := by
  have hbeside := h.run hp hR hr hw
  clear hr hw
  generalize m'.run watcher' t fuel p' = r' at hbeside
  cases hbeside with
  | @alike ending m₁ m₁' s₁ s₁' hending hR₁ =>
      refine ⟨m₁, m₁', s₁', hR₁, rfl, ?_⟩
      cases ending with
      | blocked o => exact absurd rfl (hending o)
      | finished | halted | outOfFuel => rfl
  | @refused i o fuel frames frames' m₁ m₁' s₁ s₁' _ ho hR₁ hd hcourse =>
      refine ⟨m₁, m₁', s₁', hR₁, rfl, ?_⟩
      rw [← hcourse.run_eq, Course.run_eq (.refused hd (refuses hR₁ ho))]
      rfl

end Simulation

end TapeLang
