import TapeLang.Proofs.Native.Streams

/-!
# The code of single commands

The lines of an instruction do what the machine does. If nothing stands in the way they are passed,
and the processor agrees with the machine afterwards (`advances_command`). If a bounded tape refuses
the instruction, they lead to the routine of the edge, with the index of the instruction in `r13`
and nothing else changed (`advances_edge`).
-/

set_option autoImplicit false

namespace TapeLang

open Assembly

/-! ## Adding to a cell -/

section One

variable {t : Tape} {index : Int}

theorem Tape.bump_one (h : t.addFault? 1 index = none) : t.bump 1 = t.put (t.cell + 1) := by
  have hcast := cast_cell_bump h
  have hcell : (t.bump 1).cell = t.cell + 1 := by
    apply UInt8.toNat_inj.1
    rw [UInt8.toNat_add, UInt8.toNat_one]
    omega
  rw [bump_eq_put, hcell]

theorem Tape.bump_neg_one (h : t.addFault? (-1) index = none) :
    t.bump (-1) = t.put (t.cell - 1) := by
  have hcast := cast_cell_bump h
  have hcell : (t.bump (-1)).cell = t.cell - 1 := by
    apply UInt8.toNat_inj.1
    rw [UInt8.toNat_sub, UInt8.toNat_one]
    omega
  rw [bump_eq_put, hcell]

end One

namespace Native

variable {platform : Platform} {image : Image} {config : TapeConfig} {base : Nat} {m : Machine}
  {c : Cpu} {rest : Listing} {returns : List Listing}

/-! ## Checks -/

/-- The routine of an edge, without its label. -/
def routine (e : Edge) : Listing :=
  [load .rsi (.name (.edgeMessage e)),
    load .edx (.name (.edgeMessageLength e)),
    jump .always .fault]

/-- A bounded tape has a routine for every edge. -/
theorem Loaded.edge_suffix (hl : Loaded image config base) (hw : config.wraps = false) (e : Edge) :
    ∃ after, .label (.edge e) :: (routine e ++ after) <:+ image.listing := by
  have htrailer : epilogue ++ (Edge.all.flatMap edgeRoutine ++ faultReporter ++ dataSegment config)
      <:+ image.listing := by
    have h := hl.trailer_suffix
    rwa [trailer, faultRoutines, hw] at h
  cases e with
  | pointerUnderflow => exact ⟨_, .trans ⟨epilogue ++ [.blank], rfl⟩ htrailer⟩
  | pointerOverflow =>
      exact ⟨_, .trans ⟨epilogue ++ (edgeRoutine .pointerUnderflow ++ [.blank]), rfl⟩ htrailer⟩
  | cellUnderflow =>
      exact ⟨_, .trans ⟨epilogue ++ (edgeRoutine .pointerUnderflow ++
        (edgeRoutine .pointerOverflow ++ [.blank])), rfl⟩ htrailer⟩
  | cellOverflow =>
      exact ⟨_, .trans ⟨epilogue ++ (edgeRoutine .pointerUnderflow ++
        (edgeRoutine .pointerOverflow ++ (edgeRoutine .cellUnderflow ++ [.blank]))), rfl⟩ htrailer⟩

section Checks

variable {i : Instruction} {o : Operation} {j : Jump} {e : Edge} {action : Listing} {flags : Flags}
  {k : Nat}

/-- Before the jump of a check, `r13` holds the index and the flags hold the comparison. -/
theorem reaches_test (hw : config.wraps = false) (hindex : i.index = (k : Int)) (hk : k < 2 ^ 64)
    (ho : ∀ r13, image.operate? platform o { c with r13 } = some { c with r13, flags }) :
    Process.Reaches platform image ⟨checked config i (.code o) j e ++ rest, returns, c⟩
      ⟨jump j (.edge e) :: rest, returns, { c with r13 := BitVec.ofNat 64 k, flags }⟩ := by
  have hvalue : value? image.symbols (.number i.index) = some (k : Int) := congrArg some hindex
  rw [checked, hw]
  exact .head (Process.moves_operate (Image.operate?_load (.inr rfl) hvalue hk))
    (.single (Process.moves_operate (ho (BitVec.ofNat 64 k))))

/-- A check that finds nothing is passed. -/
theorem reaches_action (hl : Loaded image config base) (h : Agrees image config base m c)
    (hlines : i.lines config = checked config i (.code o) j e ++ action)
    (hindex : i.index = (k : Int)) (hk : k < 2 ^ 64)
    (ho : ∀ r13, image.operate? platform o { c with r13 } = some { c with r13, flags })
    (hpass : config.wraps = true ∨ flags.holds j = false) :
    ∃ c', Process.Reaches platform image ⟨i.lines config ++ rest, returns, c⟩
      ⟨action ++ rest, returns, c'⟩ ∧ Agrees image config base m c' := by
  rw [hlines, List.append_assoc]
  -- a tape that wraps around has no check
  cases hw : config.wraps with
  | true =>
      rw [checked, hw]
      exact ⟨c, .refl, h⟩
  | false =>
      have hj : flags.holds j = false := by
        rcases hpass with hwraps | hj
        · rw [hw] at hwraps
          cases hwraps
        · exact hj
      obtain ⟨after, hsuffix⟩ := hl.edge_suffix hw e
      exact ⟨{ c with r13 := BitVec.ofNat 64 k, flags }, (reaches_test hw hindex hk ho).tail
        (Process.moves_noJump (from?_label hl.nodup hsuffix) hj), h.of_eq rfl rfl rfl rfl rfl rfl⟩

/-- A check that finds the edge leads to its routine. -/
theorem advances_routine (hl : Loaded image config base) (h : Agrees image config base m c)
    (hw : config.wraps = false)
    (hlines : i.lines config = checked config i (.code o) j e ++ action)
    (hindex : i.index = (k : Int)) (hk : k < 2 ^ 64)
    (ho : ∀ r13, image.operate? platform o { c with r13 } = some { c with r13, flags })
    (hj : flags.holds j = true) :
    ∃ after c', .label (.edge e) :: (routine e ++ after) <:+ image.listing ∧
      Process.Advances platform image ⟨i.lines config ++ rest, returns, c⟩
        ⟨.label (.edge e) :: (routine e ++ after), returns, c'⟩ ∧
      Agrees image config base m c' ∧ c'.r13 = BitVec.ofNat 64 k := by
  rw [hlines, List.append_assoc]
  obtain ⟨after, hsuffix⟩ := hl.edge_suffix hw e
  exact ⟨after, { c with r13 := BitVec.ofNat 64 k, flags }, hsuffix,
    .tail' (reaches_test hw hindex hk ho) (Process.moves_jump (from?_label hl.nodup hsuffix) hj),
    h.of_eq rfl rfl rfl rfl rfl rfl, rfl⟩

end Checks

/-! ## The four comparisons -/

theorem holds_atStart (h : Agrees image config base m c) :
    (Flags.ofBits c.r12).holds .zero = decide (m.tape.pointer = 0) := by
  have hlt : m.tape.pointer < 2 ^ 64 := by
    have hcells := config.cells_lt
    have hpointer := h.pointer_lt
    omega
  rw [Flags.holds_zero_ofBits, h.pointer_eq, decide_eq_decide]
  exact ⟨address_inj (b := 0) hlt (by decide), congrArg _⟩

theorem holds_atEnd (h : Agrees image config base m c) :
    (Flags.ofSub c.r12 (BitVec.ofNat 64 (config.length.cells - 1))).holds .aboveOrEqual =
      decide (m.tape.size ≤ m.tape.pointer + 1) := by
  have hcells := config.cells_lt
  have hlt := h.pointer_lt
  rw [Flags.holds_aboveOrEqual_ofSub, h.pointer_eq, toNat_address (by omega),
    toNat_address (by omega), Tape.size, h.config_eq, decide_eq_decide]
  omega

theorem holds_atValue (h : Agrees image config base m c) (v : UInt8) :
    (Flags.ofSub (c.memory (c.rbx + c.r12)).toBitVec v.toBitVec).holds .equal =
      decide (m.tape.cell = v) := by
  rw [Flags.holds_equal_ofSub, h.memory_cell, decide_eq_decide]
  exact UInt8.toBitVec_inj

/-- The comparison of the cell does not depend on `r13`. -/
theorem operate?_cmpCell_r13 {n : Int} (v : UInt8) (hn : n = (v.toNat : Int))
    (hm : image.mapped (c.rbx + c.r12) = true) (r13 : BitVec 64) :
    image.operate? platform (.binary .cmp cell (.value (.number n))) { c with r13 } =
      some { c with
        r13, flags := .ofSub (c.memory (c.rbx + c.r12)).toBitVec v.toBitVec } :=
  Image.operate?_cmpCell v hn hm

/-- An instruction is counted once its effect is there. -/
theorem Agrees.perform {i : Instruction} (h : Agrees image config base (m.apply i.command) c) :
    Agrees image config base (m.perform i) c :=
  h.onStats _

theorem Agrees.bump_one (hl : Loaded image config base) (h : Agrees image config base m c)
    {index : Int} (hfault : m.tape.addFault? 1 index = none) :
    Agrees image config base (m.onTape fun t => t.bump 1)
      (c.store (c.rbx + c.r12) (c.memory (c.rbx + c.r12) + 1)) := by
  have hstore := h.store hl (m.tape.cell + 1)
  rw [h.memory_cell]
  show Agrees image config base { m with tape := m.tape.bump 1 } _
  rw [Tape.bump_one hfault]
  exact hstore

theorem Agrees.bump_neg_one (hl : Loaded image config base) (h : Agrees image config base m c)
    {index : Int} (hfault : m.tape.addFault? (-1) index = none) :
    Agrees image config base (m.onTape fun t => t.bump (-1))
      (c.store (c.rbx + c.r12) (c.memory (c.rbx + c.r12) - 1)) := by
  have hstore := h.store hl (m.tape.cell - 1)
  rw [h.memory_cell]
  show Agrees image config base { m with tape := m.tape.bump (-1) } _
  rw [Tape.bump_neg_one hfault]
  exact hstore

/-! ## Commands -/

/-- **A refused instruction leads to the routine of its edge.** -/
theorem advances_edge (hl : Loaded image config base) (h : Agrees image config base m c)
    (hw : config.wraps = false) {i : Instruction} {k : Nat} (hindex : i.index = (k : Int))
    (hk : k < 2 ^ 64) {e : Edge} (he : m.edge? i.command = some e) :
    ∃ after c', .label (.edge e) :: (routine e ++ after) <:+ image.listing ∧
      Process.Advances platform image ⟨i.lines config ++ rest, returns, c⟩
        ⟨.label (.edge e) :: (routine e ++ after), returns, c'⟩ ∧
      Agrees image config base m c' ∧ c'.r13 = BitVec.ofNat 64 k := by
  have hcells := config.cells_lt
  have hmapped := h.mapped_cell hl
  obtain ⟨command, index, offset⟩ := i
  cases command with
  | moveLeft =>
      obtain ⟨hedge, rfl⟩ : m.tape.pointer = 0 ∧ Edge.pointerUnderflow = e := by
        simpa [Machine.edge?] using he
      exact advances_routine hl h hw rfl hindex hk (fun r13 => Image.operate?_testPointer)
        ((holds_atStart h).trans (decide_eq_true hedge))
  | moveRight =>
      obtain ⟨hedge, rfl⟩ : m.tape.size ≤ m.tape.pointer + 1 ∧ Edge.pointerOverflow = e := by
        simpa [Machine.edge?] using he
      exact advances_routine hl h hw rfl hindex hk
        (fun r13 => Image.operate?_cmpPointer hl.value_belowTapeSize (by omega))
        ((holds_atEnd h).trans (decide_eq_true hedge))
  | increment =>
      obtain ⟨hedge, rfl⟩ : m.tape.cell = 255 ∧ Edge.cellOverflow = e := by
        simpa [Machine.edge?] using he
      exact advances_routine hl h hw rfl hindex hk
        (operate?_cmpCell_r13 255 rfl hmapped)
        ((holds_atValue h 255).trans (decide_eq_true hedge))
  | decrement =>
      obtain ⟨hedge, rfl⟩ : m.tape.cell = 0 ∧ Edge.cellUnderflow = e := by
        simpa [Machine.edge?] using he
      exact advances_routine hl h hw rfl hindex hk
        (operate?_cmpCell_r13 0 rfl hmapped)
        ((holds_atValue h 0).trans (decide_eq_true hedge))
  | output | input | loopOpen | loopClose => cases he

/-- **An instruction that nothing stands in the way of.** -/
theorem advances_command (hl : Loaded image config base) (h : Agrees image config base m c)
    {i : Instruction} {k : Nat} (hi : i.command.isDelimiter = false) (hindex : i.index = (k : Int))
    (hk : k < 2 ^ 64) (hpass : config.wraps = true ∨ m.edge? i.command = none) :
    ∃ c', Process.Advances platform image ⟨i.lines config ++ rest, returns, c⟩
      ⟨rest, returns, c'⟩ ∧ Agrees image config base (m.perform i) c' := by
  have hcells := config.cells_lt
  have hmapped := h.mapped_cell hl
  have hsize : m.tape.size = config.length.cells := by rw [Tape.size, h.config_eq]
  have hlt := h.pointer_lt
  have hinside : m.tape.pointer < m.tape.size := hsize ▸ hlt
  have ho : m.obstacle? i = none := by
    rw [m.obstacle?_eq hi hinside, h.config_eq]
    rcases hpass with hw | hnone
    · rw [if_pos hw]
    · rw [hnone, Option.map_none, ite_self]
  obtain ⟨command, index, offset⟩ := i
  cases command with
  | moveLeft =>
      have hedge : config.wraps = true ∨ m.tape.pointer ≠ 0 := by
        simpa [Machine.edge?] using hpass
      obtain ⟨c₁, hcheck, h₁⟩ := reaches_action hl h rfl hindex hk
        (fun r13 => Image.operate?_testPointer)
        (hedge.imp_right fun hne => (holds_atStart h).trans (decide_eq_false hne))
      obtain ⟨rax, flags, hmove⟩ := advances_moveLeft hl h₁.pointer_eq hlt hedge
      rw [← hsize, ← Tape.pointer_shift_neg_one hinside (Option.map_eq_none_iff.1 ho)] at hmove
      refine ⟨_, .trans_right hcheck hmove, .perform ?_⟩
      exact h₁.shift (Option.map_eq_none_iff.1 ho) rfl rfl rfl rfl rfl rfl
  | moveRight =>
      have hedge : config.wraps = true ∨ m.tape.pointer + 1 < m.tape.size := by
        simpa [Machine.edge?] using hpass
      obtain ⟨c₁, hcheck, h₁⟩ := reaches_action hl h rfl hindex hk
        (fun r13 => Image.operate?_cmpPointer hl.value_belowTapeSize (by omega))
        (hedge.imp_right fun hlt => (holds_atEnd h).trans (decide_eq_false (by omega)))
      obtain ⟨rax, flags, hmove⟩ := advances_moveRight hl h₁.pointer_eq hlt
        (hedge.imp_right fun hlt => by omega)
      rw [← hsize, ← Tape.pointer_shift_one hinside (Option.map_eq_none_iff.1 ho)] at hmove
      refine ⟨_, .trans_right hcheck hmove, .perform ?_⟩
      exact h₁.shift (Option.map_eq_none_iff.1 ho) rfl rfl rfl rfl rfl rfl
  | increment =>
      have hedge : config.wraps = true ∨ m.tape.cell ≠ 255 := by
        simpa [Machine.edge?] using hpass
      obtain ⟨c₁, hcheck, h₁⟩ := reaches_action hl h rfl hindex hk
        (operate?_cmpCell_r13 255 rfl hmapped)
        (hedge.imp_right fun hne => (holds_atValue h 255).trans (decide_eq_false hne))
      refine ⟨_, .tail' hcheck (Process.moves_operate
        (Image.operate?_incCell (h₁.mapped_cell hl))), .perform ?_⟩
      exact (h₁.bump_one hl (Option.map_eq_none_iff.1 ho)).of_eq rfl rfl rfl rfl rfl rfl
  | decrement =>
      have hedge : config.wraps = true ∨ m.tape.cell ≠ 0 := by
        simpa [Machine.edge?] using hpass
      obtain ⟨c₁, hcheck, h₁⟩ := reaches_action hl h rfl hindex hk
        (operate?_cmpCell_r13 0 rfl hmapped)
        (hedge.imp_right fun hne => (holds_atValue h 0).trans (decide_eq_false hne))
      refine ⟨_, .tail' hcheck (Process.moves_operate
        (Image.operate?_decCell (h₁.mapped_cell hl))), .perform ?_⟩
      exact (h₁.bump_neg_one hl (Option.map_eq_none_iff.1 ho)).of_eq rfl rfl rfl rfl rfl rfl
  | output =>
      obtain ⟨c', hmoves, h'⟩ := advances_writeCell hl h
      exact ⟨c', hmoves, h'.perform⟩
  | input =>
      obtain ⟨c', hmoves, h'⟩ := advances_readCell hl h
      exact ⟨c', hmoves, h'.perform⟩
  | loopOpen | loopClose => cases hi

end Native

end TapeLang
