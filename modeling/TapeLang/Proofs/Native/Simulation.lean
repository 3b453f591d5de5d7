import TapeLang.Proofs.Machine.Moves
import TapeLang.Proofs.Native.Commands

/-!
# The process follows the run

`Follows` relates the frames of a running program to the lines that are still ahead: the code of
what is left of the innermost body, then the foot of its loop, then the lines for the frames around
it. Every move of the run is followed by moves of the process (`Matches.moves`), by one at least
unless the program is through. A loop is tested at one place of the code, so the two places where a
run tests it both lead there.
-/

set_option autoImplicit false

namespace TapeLang.Native

open Assembly

/-! ## The relation -/

/-- An instruction that has code, and whose index fits into a register. -/
def Encodable (i : Instruction) : Prop :=
  i.command.isDelimiter = false ∧ ∃ k : Nat, k < 2 ^ 63 ∧ i.index = (k : Int)

/-- The lines that are ahead of a process while the program still has these frames. -/
inductive Follows (listing : Listing) (config : TapeConfig) (annotate : Bool) :
    List Frame → Listing → Prop where
  /-- The program is through. -/
  | through :
      trailer config <:+ listing → Follows listing config annotate [] (trailer config)
  /-- The frame of the program itself. -/
  | root {b : Body} {n : Nat} :
      b.All Encodable → b.code config annotate n ++ trailer config <:+ listing →
        Follows listing config annotate [⟨b, none⟩] (b.code config annotate n ++ trailer config)
  /-- The frame of a loop, whose code stands somewhere in the listing. -/
  | loop {b inner : Body} {n k : Nat} {outer : List Frame} {after : Listing} :
      b.All Encodable → inner.All Encodable → Follows listing config annotate outer after →
        loopHead k ++ (inner.code config annotate (k + 1) ++ (loopFoot k ++ after)) <:+ listing →
          b.code config annotate n ++ (loopFoot k ++ after) <:+ listing →
            Follows listing config annotate (⟨b, some inner⟩ :: outer)
              (b.code config annotate n ++ (loopFoot k ++ after))

/-- What is left of the innermost body may be replaced by any other body whose code leads to the
same lines. -/
theorem Follows.inside {listing : Listing} {config : TapeConfig} {annotate : Bool} {b : Body}
    {again : Option Body} {outer : List Frame} {code : Listing}
    (h : Follows listing config annotate (⟨b, again⟩ :: outer) code) :
    ∃ n rest, code = b.code config annotate n ++ rest ∧ b.All Encodable ∧ code <:+ listing ∧
      ∀ (b' : Body) (n' : Nat), b'.All Encodable → b'.code config annotate n' ++ rest <:+ listing →
        Follows listing config annotate (⟨b', again⟩ :: outer)
          (b'.code config annotate n' ++ rest) := by
  cases h with
  | @root _ n hb hsuffix =>
      exact ⟨n, _, rfl, hb, hsuffix, fun b' n' hb' hsuffix' => .root hb' hsuffix'⟩
  | @loop _ _ n _ _ _ hb hinner houter hloop hsuffix =>
      exact ⟨n, _, rfl, hb, hsuffix,
        fun b' n' hb' hsuffix' => .loop hb' hinner houter hloop hsuffix'⟩

/-! ## Loops -/

section Loops

variable {platform : Platform} {image : Image} {config : TapeConfig} {base : Nat} {m : Machine}
  {c : Cpu} {n : Nat} {contents after : Listing} {returns : List Listing}

theorem reaches_remark (annotate : Bool) (note : Comment) :
    Process.Reaches platform image ⟨remark annotate note ++ after, returns, c⟩
      ⟨after, returns, c⟩ := by
  cases annotate with
  | true => exact .single Process.moves_comment
  | false => exact .refl

/-- The end of a loop whose code stands in the listing. -/
theorem from?_loopEnd (hl : Loaded image config base)
    (hsuffix : loopHead n ++ (contents ++ (loopFoot n ++ after)) <:+ image.listing) :
    from? (.label (.loopEnd n)) image.listing = some (.label (.loopEnd n) :: after) := by
  refine from?_label hl.nodup (.trans ?_ hsuffix)
  refine ⟨loopHead n ++ (contents ++ [jump .always (.loop n)]), ?_⟩
  simp [loopFoot]

/-- The test of a loop at a cell that is zero. -/
theorem advances_skip (hl : Loaded image config base) (h : Agrees image config base m c)
    (hsuffix : loopHead n ++ (contents ++ (loopFoot n ++ after)) <:+ image.listing)
    (hcell : m.tape.cell = 0) :
    ∃ c', Process.Advances platform image
        ⟨loopHead n ++ (contents ++ (loopFoot n ++ after)), returns, c⟩ ⟨after, returns, c'⟩ ∧
      Agrees image config base m c' :=
  ⟨_, .head Process.moves_label
    (.head (Process.moves_operate (Image.operate?_cmpCell 0 rfl (h.mapped_cell hl)))
      (.head (Process.moves_jump (from?_loopEnd hl hsuffix)
          ((holds_atValue h 0).trans (decide_eq_true hcell)))
        (.single Process.moves_label))),
    h.of_eq rfl rfl rfl rfl rfl rfl⟩

/-- The test of a loop at any other cell. -/
theorem advances_enter (hl : Loaded image config base) (h : Agrees image config base m c)
    (hsuffix : loopHead n ++ (contents ++ (loopFoot n ++ after)) <:+ image.listing)
    (hcell : m.tape.cell ≠ 0) :
    ∃ c', Process.Advances platform image
        ⟨loopHead n ++ (contents ++ (loopFoot n ++ after)), returns, c⟩
        ⟨contents ++ (loopFoot n ++ after), returns, c'⟩ ∧
      Agrees image config base m.iterate c' :=
  ⟨_, .head Process.moves_label
    (.head (Process.moves_operate (Image.operate?_cmpCell 0 rfl (h.mapped_cell hl)))
      (.single (Process.moves_noJump (from?_loopEnd hl hsuffix)
          ((holds_atValue h 0).trans (decide_eq_false hcell))))),
    Agrees.of_eq (m := m.iterate) (h.onStats _) rfl rfl rfl rfl rfl rfl⟩

/-- The foot of a loop leads back to its head. -/
theorem reaches_head (hl : Loaded image config base)
    (hsuffix : loopHead n ++ (contents ++ (loopFoot n ++ after)) <:+ image.listing) :
    Process.Reaches platform image ⟨loopFoot n ++ after, returns, c⟩
      ⟨loopHead n ++ (contents ++ (loopFoot n ++ after)), returns, c⟩ :=
  .single (Process.moves_jump (from?_label hl.nodup hsuffix) rfl)

end Loops

/-! ## Moves -/

section Moves

variable {platform : Platform} {image : Image} {config : TapeConfig} {base : Nat} {annotate : Bool}
  {c : Cpu} {code : Listing}

/-- The process has followed the run: it is at the lines for its frames, and agrees with its
machine. -/
structure Matches (image : Image) (config : TapeConfig) (base : Nat) (annotate : Bool)
    (e : Execution Unit) (p : Process) : Prop where
  follows : Follows image.listing config annotate e.frames p.ahead
  returns_eq : p.returns = []
  agrees : Agrees image config base e.machine p.cpu

/-- A loop that is met. -/
theorem matches_of_loop (hl : Loaded image config base) {inner after : Body}
    {openIndex closeIndex : Int} {again : Option Body} {outer : List Frame} {m : Machine}
    (hf : Follows image.listing config annotate
      (⟨.loop inner openIndex closeIndex after, again⟩ :: outer) code)
    (ha : Agrees image config base m c) {e' : Execution Unit}
    (hmove : Execution.Moves Watcher.idle
      ⟨⟨.loop inner openIndex closeIndex after, again⟩ :: outer, m, ()⟩ e') :
    ∃ p', Process.Advances platform image ⟨code, [], c⟩ p' ∧
      Matches image config base annotate e' p' := by
  obtain ⟨n, rest, rfl, ⟨hinner, hafter⟩, hsuffix, hreplace⟩ := hf.inside
  rw [Body.code_loop_append] at hsuffix ⊢
  -- the code of the loop, of its contents and of what follows all stand in the listing
  have hloop := (List.suffix_append ..).trans hsuffix
  have hcontents := (List.suffix_append ..).trans hloop
  have houter := hreplace after _ hafter
    ((List.suffix_append ..).trans ((List.suffix_append ..).trans hcontents))
  by_cases hcell : m.tape.cell = 0
  · have he' : e' = ⟨⟨after, again⟩ :: outer, m, ()⟩ := by
      simpa [Execution.Moves, Execution.step, hcell, eq_comm] using hmove
    obtain ⟨c', hmoves, ha'⟩ := advances_skip hl ha hloop hcell
    rw [he']
    exact ⟨_, .trans_right (reaches_remark ..) hmoves, houter, rfl, ha'⟩
  · have he' : e' = ⟨⟨inner, some inner⟩ :: ⟨after, again⟩ :: outer, m.iterate, ()⟩ := by
      simpa [Execution.Moves, Execution.step, hcell, eq_comm] using hmove
    obtain ⟨c', hmoves, ha'⟩ := advances_enter hl ha hloop hcell
    rw [he']
    exact ⟨_, .trans_right (reaches_remark ..) hmoves,
      .loop hinner hinner houter hloop hcontents, rfl, ha'⟩

/-- A pass through a loop that is over. -/
theorem matches_of_pass (hl : Loaded image config base) {inner : Body} {outer : List Frame}
    {m : Machine} (hf : Follows image.listing config annotate (⟨.nil, some inner⟩ :: outer) code)
    (ha : Agrees image config base m c) {e' : Execution Unit}
    (hmove : Execution.Moves Watcher.idle ⟨⟨.nil, some inner⟩ :: outer, m, ()⟩ e') :
    ∃ p', Process.Advances platform image ⟨code, [], c⟩ p' ∧
      Matches image config base annotate e' p' := by
  cases hf with
  | @loop _ _ _ k _ after _ hinner houter hloop _ =>
      -- from the foot of the loop the process goes back to its head, where the loop is tested
      have hcontents := (List.suffix_append ..).trans hloop
      have hhead : Process.Reaches platform image ⟨loopFoot k ++ after, [], c⟩ _ :=
        reaches_head hl hloop
      by_cases hcell : m.tape.cell = 0
      · have he' : e' = ⟨outer, m, ()⟩ := by
          simpa [Execution.Moves, Execution.step, hcell, eq_comm] using hmove
        obtain ⟨c', hmoves, ha'⟩ := advances_skip hl ha hloop hcell
        rw [he']
        exact ⟨_, .trans_right hhead hmoves, houter, rfl, ha'⟩
      · have he' : e' = ⟨⟨inner, some inner⟩ :: outer, m.iterate, ()⟩ := by
          simpa [Execution.Moves, Execution.step, hcell, eq_comm] using hmove
        obtain ⟨c', hmoves, ha'⟩ := advances_enter hl ha hloop hcell
        rw [he']
        exact ⟨_, .trans_right hhead hmoves, .loop hinner hinner houter hloop hcontents, rfl, ha'⟩

/-- Nothing stands in the way of an instruction: the tape wraps around, or no edge is near. -/
theorem Agrees.passes {m : Machine} (h : Agrees image config base m c) {i : Instruction}
    (hobstacle : m.obstacle? i = none) :
    config.wraps = true ∨ m.edge? i.command = none := by
  cases hw : config.wraps with
  | true => exact .inl rfl
  | false =>
      rw [← h.config_eq] at hw
      exact .inr (Machine.edge?_eq_none_of_obstacle? h.pointer_lt_size hw hobstacle).2

/-- Something stands in the way of an instruction: the tape is bounded, and the instruction would
go past an edge. -/
theorem Agrees.refused {m : Machine} (h : Agrees image config base m c) {i : Instruction}
    (hi : i.command.isDelimiter = false) {o : Obstacle} (hobstacle : m.obstacle? i = some o) :
    config.wraps = false ∧ ∃ e, m.edge? i.command = some e ∧
      o = .fault (.edge e i.index m.tape.pointer) := by
  rw [← h.config_eq]
  exact Machine.exists_edge_of_obstacle? hi h.pointer_lt_size hobstacle

/-- An instruction that is executed. -/
theorem matches_of_instr (hl : Loaded image config base) {i : Instruction} {after : Body}
    {again : Option Body} {outer : List Frame} {m : Machine}
    (hf : Follows image.listing config annotate (⟨.instr i after, again⟩ :: outer) code)
    (ha : Agrees image config base m c) {e' : Execution Unit}
    (hmove : Execution.Moves Watcher.idle ⟨⟨.instr i after, again⟩ :: outer, m, ()⟩ e') :
    ∃ p', Process.Advances platform image ⟨code, [], c⟩ p' ∧
      Matches image config base annotate e' p' := by
  obtain ⟨n, rest, rfl, ⟨⟨hi, k, hk, hindex⟩, hafter⟩, hsuffix, hreplace⟩ := hf.inside
  rw [Body.code_instr_append] at hsuffix ⊢
  have hrest := (List.suffix_append ..).trans ((List.suffix_append ..).trans hsuffix)
  cases hobstacle : m.obstacle? i with
  | some o => simp [Execution.Moves, Execution.step, hobstacle] at hmove
  | none =>
      have he' : e' = ⟨⟨after, again⟩ :: outer, m.perform i, ()⟩ := by
        simpa [Execution.Moves, Execution.step, hobstacle, Watcher.idle, eq_comm] using hmove
      obtain ⟨c', hmoves, ha'⟩ := advances_command hl ha hi hindex (by omega)
        (ha.passes hobstacle)
      rw [he']
      exact ⟨_, .trans_right (reaches_remark ..) hmoves, hreplace after n hafter hrest, rfl, ha'⟩

/-- **Every move of the run is followed by the process.** -/
theorem Matches.moves (platform : Platform) (hl : Loaded image config base)
    {e e' : Execution Unit} {p : Process} (h : Matches image config base annotate e p)
    (hmove : Execution.Moves Watcher.idle e e') :
    ∃ p', Process.Reaches platform image p p' ∧ Matches image config base annotate e' p' ∧
      (e'.frames ≠ [] → Process.Advances platform image p p') := by
  obtain ⟨frames, m, watched⟩ := e
  obtain ⟨code, returns, c⟩ := p
  obtain ⟨hf, rfl, ha⟩ := h
  cases frames with
  | nil => cases hmove
  | cons frame outer =>
      obtain ⟨b, again⟩ := frame
      cases b with
      | nil =>
          cases again with
          | none =>
              -- the frame of the program itself is dropped without a move of the process
              cases hf with
              | @root _ n hb hsuffix =>
                  have he' : e' = ⟨[], m, ()⟩ := by
                    simpa [Execution.Moves, Execution.step, eq_comm] using hmove
                  rw [he']
                  exact ⟨_, .refl, ⟨.through hsuffix, rfl, ha⟩, fun hne => absurd rfl hne⟩
          | some inner =>
              obtain ⟨p', hmoves, h'⟩ := matches_of_pass hl hf ha hmove
              exact ⟨p', hmoves.to_reflTransGen, h', fun _ => hmoves⟩
      | instr i rest =>
          obtain ⟨p', hmoves, h'⟩ := matches_of_instr hl hf ha hmove
          exact ⟨p', hmoves.to_reflTransGen, h', fun _ => hmoves⟩
      | loop inner openIndex closeIndex rest =>
          obtain ⟨p', hmoves, h'⟩ := matches_of_loop hl hf ha hmove
          exact ⟨p', hmoves.to_reflTransGen, h', fun _ => hmoves⟩

/-- A run of moves is followed by the process. -/
theorem Matches.reaches (platform : Platform) (hl : Loaded image config base)
    {e e' : Execution Unit} {p : Process} (h : Matches image config base annotate e p)
    (hmoves : Relation.ReflTransGen (Execution.Moves Watcher.idle) e e') :
    ∃ p', Process.Reaches platform image p p' ∧ Matches image config base annotate e' p' := by
  induction hmoves with
  | refl => exact ⟨p, .refl, h⟩
  | tail _ hmove ih =>
      obtain ⟨p₁, hreaches, h₁⟩ := ih
      obtain ⟨p₂, hreaches', h₂, -⟩ := h₁.moves platform hl hmove
      exact ⟨p₂, hreaches.trans hreaches', h₂⟩

end Moves

end TapeLang.Native
