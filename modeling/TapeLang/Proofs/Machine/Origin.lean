import TapeLang.Proofs.Machine.Edges
import TapeLang.Proofs.Machine.Lockstep
import TapeLang.Proofs.Nesting.Concatenation

/-!
# Where the instructions of a run come from

A run comes only to instructions of its program: frames hold parts of the program, and what they
demand is an instruction of such a part (`demand_all`). So what is known about all instructions of a
program is known about every instruction that its run executes or is refused
(`Course.invariant_of_all`).

About the program of a text it is known that its instructions are those of the text, and that no
delimiter is among them (`all_lexed_of_parse`). An instruction of a text in turn tells its place
there (`getElem?_lex`).
-/

set_option autoImplicit false

namespace TapeLang

/-! ## Instructions of a text -/

/-- A located command stands at its place. -/
theorem mem_located_iff {chars : List Char} {command : Command} {offset : Nat} :
    (command, offset) ∈ located chars ↔ chars[offset]? = some command.symbol := by
  constructor
  · intro h
    obtain ⟨⟨c, k⟩, hmem, hcommand⟩ := List.mem_filterMap.1 h
    obtain ⟨command', hc, hpair⟩ := Option.map_eq_some_iff.1 hcommand
    obtain ⟨rfl, rfl⟩ := Prod.mk.inj hpair
    rw [Command.symbol_of_ofSymbol? hc]
    exact List.mem_zipIdx_iff_getElem?.1 hmem
  · intro h
    apply List.mem_filterMap.2
    refine ⟨(command.symbol, offset), List.mem_zipIdx_iff_getElem?.2 h, ?_⟩
    dsimp only
    rw [Command.ofSymbol?_symbol]
    rfl

/-- **The instructions of a text tell their places**: the index among the instructions, the offset
among the characters, and the command by the symbol that stands there. -/
theorem getElem?_lex {source : String} {k : Nat} {i : Instruction} (h : (lex source)[k]? = some i) :
    i.index = k ∧ ∃ offset : Nat, i.offset = offset ∧
      source.toList[offset]? = some i.command.symbol := by
  rw [lex, List.getElem?_map, List.getElem?_zipIdx, Option.map_map] at h
  obtain ⟨⟨command, offset⟩, hlocated, rfl⟩ := Option.map_eq_some_iff.1 h
  refine ⟨by simp, offset, rfl, ?_⟩
  exact mem_located_iff.1 (List.mem_of_getElem? hlocated)

theorem Body.All.imp {P Q : Instruction → Prop} (hPQ : ∀ i, P i → Q i) {b : Body} (h : b.All P) :
    b.All Q := by
  induction b with
  | nil => trivial
  | instr i rest ih => exact ⟨hPQ i h.1, ih h.2⟩
  | loop inner openIndex closeIndex rest ihInner ihRest => exact ⟨ihInner h.1, ihRest h.2⟩

/-- The instructions of the program of a text are those of the text without the delimiters. -/
theorem all_lexed_of_parse {source : String} {p : Program} (h : (parse source).value = .ok p) :
    p.body.All fun i => i ∈ lex source ∧ i.command.isDelimiter = false := by
  obtain ⟨hflat, -, hfree⟩ := flatten_of_nestLogged (parse_value source ▸ h)
  have hlexed : p.body.All fun i => i.command.isDelimiter = false → i ∈ lex source := by
    apply Body.all_of_flatten
    rw [hflat]
    intro i hi hcommand
    obtain ⟨j, hj, rfl⟩ := List.mem_map.1 hi
    -- only a delimiter is kept with another offset than it has in the text
    rw [Instruction.command_kept] at hcommand
    rwa [Instruction.kept_of_not_delimiter hcommand]
  apply (hlexed.and hfree).imp
  intro i hi
  exact ⟨hi.1 hi.2, hi.2⟩

/-! ## Instructions of a stack of frames -/

/-- Every instruction of a frame has a property: of the rest of its pass, and of its loop. -/
def Frame.All (P : Instruction → Prop) (f : Frame) : Prop :=
  f.rest.All P ∧ ∀ inner, f.again = some inner → inner.All P

/-- Every instruction that a demand leads to has a property. -/
def Demand.All (P : Instruction → Prop) : Demand → Prop
  | .finish => True
  | .proceed frames | .pass frames => ∀ f ∈ frames, f.All P
  | .execute i frames => P i ∧ ∀ f ∈ frames, f.All P

variable {P : Instruction → Prop}

/-- The frame of a loop that is entered. -/
theorem Frame.all_entered {inner : Body} (h : inner.All P) : Frame.All P ⟨inner, some inner⟩ := by
  refine ⟨h, ?_⟩
  rintro _ ⟨⟩
  exact h

/-- **Frames demand nothing that is not in them.** -/
theorem demand_all (zero : Bool) {frames : List Frame} (h : ∀ f ∈ frames, f.All P) :
    (demand zero frames).All P := by
  cases frames with
  | nil => trivial
  | cons frame outer =>
      obtain ⟨rest, again⟩ := frame
      obtain ⟨⟨hrest, hagain⟩, houter⟩ := List.forall_mem_cons.1 h
      dsimp only at hrest hagain
      cases rest with
      | nil =>
          cases again with
          | none => exact houter
          | some inner =>
              cases zero with
              | true => exact houter
              | false =>
                  exact List.forall_mem_cons.2 ⟨Frame.all_entered (hagain inner rfl), houter⟩
      | instr i rest => exact ⟨hrest.1, List.forall_mem_cons.2 ⟨⟨hrest.2, hagain⟩, houter⟩⟩
      | loop inner openIndex closeIndex rest =>
          have hafter : ∀ f ∈ ⟨rest, again⟩ :: outer, f.All P :=
            List.forall_mem_cons.2 ⟨⟨hrest.2, hagain⟩, houter⟩
          cases zero with
          | true => exact hafter
          | false => exact List.forall_mem_cons.2 ⟨Frame.all_entered hrest.1, hafter⟩

variable {σ : Type} {watcher : Watcher σ}

/-- **What every pass and every instruction of a program keeps is kept by its run**, and if the run
is refused an instruction, that is one of the program too. -/
theorem Course.invariant_of_all {I : Machine → σ → Prop}
    (iterate : ∀ {m s}, I m s → I m.iterate s)
    (perform : ∀ {m s i}, P i → I m s → m.obstacle? i = none →
      I (m.perform i) (watcher.after s m i).1)
    {fuel : Nat} {frames : List Frame} {m : Machine} {s : σ} {r : Run σ}
    (h : Course watcher fuel frames m s r) (hframes : ∀ f ∈ frames, f.All P) (hI : I m s) :
    ∃ m', I m' r.watched ∧ r.machine = r.ending.leave m' ∧
      ∀ o, r.ending = .blocked o → ∃ i, P i ∧ m'.obstacle? i = some o := by
  -- the demand of each move hands the property on to the frames after it
  have hall : ∀ {zero frames d}, demand zero frames = d → (∀ f ∈ frames, f.All P) → d.All P :=
    fun hd hframes => hd ▸ demand_all _ hframes
  induction h with
  | out frames m s => exact ⟨m, hI, rfl, by simp⟩
  | @finish fuel frames m s hd => exact ⟨m, hI, rfl, by simp⟩
  | proceed hd _ ih => exact ih (hall hd hframes) hI
  | pass hd _ ih => exact ih (hall hd hframes) (iterate hI)
  | @refused fuel frames frames' m s i o hd ho =>
      refine ⟨m, hI, rfl, ?_⟩
      rintro _ ⟨⟩
      exact ⟨i, (hall hd hframes).1, ho⟩
  | @halted fuel frames frames' m s s' i hd ho ha =>
      have hI' := perform (hall hd hframes).1 hI ho
      rw [ha] at hI'
      exact ⟨m.perform i, hI', rfl, by simp⟩
  | @executed fuel frames frames' m s s' i r hd ho ha _ ih =>
      obtain ⟨hi, hframes'⟩ := hall hd hframes
      have hI' := perform hi hI ho
      rw [ha] at hI'
      exact ih hframes' hI'

/-- A run begins with the frame of its program. -/
theorem Program.all_frames {p : Program} (h : p.body.All P) :
    ∀ f ∈ [{ rest := p.body : Frame }], f.All P := by
  intro f hf
  obtain rfl := List.mem_singleton.1 hf
  exact ⟨h, by simp⟩

namespace Machine

variable {p : Program} {m m' : Machine} {s s' : σ} {fuel : Nat}

/-- What a run is refused is an instruction of its program. -/
theorem exists_refused (hp : p.body.All P) {o : Obstacle}
    (h : m.run watcher s fuel p = ⟨.blocked o, m', s'⟩) : ∃ i, P i ∧ m'.obstacle? i = some o := by
  obtain ⟨m₁, -, hmachine, hrefused⟩ := (course_of_run h).invariant_of_all (I := fun _ _ => True)
    (fun _ => trivial) (fun _ _ _ => trivial) (Program.all_frames hp) trivial
  obtain rfl : m' = m₁ := hmachine
  exact hrefused o rfl

/-- **No delimiter is in the way of a program without delimiters**, on whatever machine. -/
theorem ending_ne_delimiter (hp : p.body.DelimiterFree) (i : Instruction) :
    (m.run watcher s fuel p).ending ≠ .blocked (.delimiter i) := by
  intro hending
  generalize hr : m.run watcher s fuel p = r at hending
  obtain ⟨ending, m', s'⟩ := r
  obtain rfl : ending = _ := hending
  obtain ⟨j, hj, ho⟩ := exists_refused hp hr
  obtain ⟨hdelimiter, -⟩ := obstacle?_eq_delimiter ho
  rw [hj] at hdelimiter
  cases hdelimiter

end Machine

end TapeLang
