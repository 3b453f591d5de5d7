import TapeLang.Proofs.Machine.Origin
import TapeLang.Proofs.Nesting.Comments

/-!
# The places of symbols

Reading a text into instructions counts two things at once: the characters, which give the offsets,
and the instructions, which give the indices. The main statement is
`lex_finds_every_symbol_in_order`: the instructions of a text and its symbols are in one-to-one
correspondence, in the same order, and both counts are right wherever the text is cut.

Offsets grow because a located command keeps the place of its character (`pairwise_located`). In a
text without comments every character is a symbol, and the two counts are one (`located_symbols`).
-/

set_option autoImplicit false

namespace TapeLang

/-! ## Offsets -/

/-- Commands are located from left to right. -/
theorem pairwise_located (chars : List Char) :
    (located chars).Pairwise fun x y => x.2 < y.2 := by
  have hplaces : chars.zipIdx.Pairwise fun x y => x.2 < y.2 := by
    apply List.pairwise_map.1
    rw [List.zipIdx_map_snd]
    exact List.pairwise_lt_range'
  -- a located command has the place of the character that it was read from
  apply hplaces.filterMap
  intro x y hxy located hlocated located' hlocated'
  obtain ⟨command, -, rfl⟩ := Option.map_eq_some_iff.1 hlocated
  obtain ⟨command', -, rfl⟩ := Option.map_eq_some_iff.1 hlocated'
  exact hxy

/-- The offsets of a text are the places of its commands. -/
theorem map_offset_lex (source : String) :
    (lex source).map Instruction.offset =
      (located source.toList).map fun x => ((x.2 : Nat) : Int) := by
  rw [lex, List.map_map]
  show (located source.toList).zipIdx.map ((fun x => ((x.2 : Nat) : Int)) ∘ Prod.fst) = _
  rw [← List.map_map, List.zipIdx_map_fst]

/-- **Offsets grow strictly.** -/
theorem pairwise_offset_lex (source : String) :
    ((lex source).map Instruction.offset).Pairwise (· < ·) := by
  rw [map_offset_lex, List.pairwise_map]
  apply (pairwise_located source.toList).imp
  intro x y hxy
  exact Int.ofNat_lt.2 hxy

/-- **The offsets of a text are exactly the places where it has a symbol.** -/
theorem mem_offset_lex_iff {source : String} {n : Int} :
    n ∈ (lex source).map Instruction.offset ↔
      ∃ (k : Nat) (c : Command), n = k ∧ source.toList[k]? = some c.symbol := by
  rw [map_offset_lex, List.mem_map]
  constructor
  · rintro ⟨⟨command, k⟩, hmem, rfl⟩
    exact ⟨k, command, rfl, mem_located_iff.1 hmem⟩
  · rintro ⟨k, command, rfl, hk⟩
    exact ⟨(command, k), mem_located_iff.2 hk, rfl⟩

/-! ## Texts without comments -/

/-- In a row of symbols every command stands at its own number. -/
theorem located_symbols (commands : List Command) :
    located (commands.map Command.symbol) = commands.zipIdx := by
  have hread : ∀ x : Command × Nat,
      (Command.ofSymbol? x.1.symbol).map (·, x.2) = some x := by
    intro x
    rw [Command.ofSymbol?_symbol]
    rfl
  rw [located, List.zipIdx_map, List.filterMap_map]
  show commands.zipIdx.filterMap (fun x => (Command.ofSymbol? x.1.symbol).map (·, x.2)) = _
  rw [funext hread, List.filterMap_some]

/-- **Without its comments a text has the same instructions, and each stands at its index.** -/
theorem lex_stripComments (source : String) :
    lex (stripComments source) = (lex source).map fun i => { i with offset := i.index } := by
  -- the offsets on the right are replaced, so they may be forgotten first
  have hbare : (lex source).map (fun i => { i with offset := i.index }) =
      ((lex source).map Instruction.bare).map fun i => { i with offset := i.index } := by
    rw [List.map_map]
    rfl
  rw [hbare, map_bare_lex, lex, toList_stripComments, located_symbols, List.map_map]
  -- what is left are commands with their numbers on both sides
  apply List.ext_getElem?
  intro k
  simp only [List.getElem?_map, List.getElem?_zipIdx, Option.map_map, Nat.zero_add]
  rfl

theorem stripComments_stripComments (source : String) :
    stripComments (stripComments source) = stripComments source :=
  stripComments_eq_iff.2 (commandsOf_stripComments source)

/-- The symbols of the instructions of a text are what is left of it without its comments. -/
theorem symbols_lex (source : String) :
    String.ofList ((lex source).map fun i => i.command.symbol) = stripComments source := by
  apply String.toList_injective
  rw [String.toList_ofList, toList_stripComments, ← map_command_lex, List.map_map]
  rfl

/-! ## The correspondence -/

/-- **Reading a text finds every symbol, in order.** For every text the offsets of its instructions
grow strictly and are exactly the places where one of the eight symbols stands. The `k`-th
instruction has the index `k` and the command whose symbol stands at its offset. The symbols of the
instructions in a row are the text without its comments; reading that gives the same instructions
with their indices for offsets, and stripping it once more changes nothing. A text in front of
another moves the indices of the other by its number of instructions, and the offsets by its number
of characters. -/
theorem lex_finds_every_symbol_in_order :
    (∀ source : String,
      ((lex source).map Instruction.offset).Pairwise (· < ·) ∧
      (∀ n : Int, n ∈ (lex source).map Instruction.offset ↔
        ∃ (k : Nat) (c : Command), n = k ∧ source.toList[k]? = some c.symbol) ∧
      (∀ (k : Nat) (i : Instruction), (lex source)[k]? = some i →
        i.index = k ∧ ∃ offset : Nat, i.offset = offset ∧
          source.toList[offset]? = some i.command.symbol) ∧
      String.ofList ((lex source).map fun i => i.command.symbol) = stripComments source ∧
      lex (stripComments source) = ((lex source).map fun i => { i with offset := i.index }) ∧
      stripComments (stripComments source) = stripComments source) ∧
    ∀ a b : String, lex (a ++ b) = lex a ++ (lex b).map fun i =>
      { i with index := i.index + (lex a).length, offset := i.offset + a.length } := by
  constructor
  · intro source
    refine ⟨pairwise_offset_lex source, fun n => mem_offset_lex_iff, ?_, symbols_lex source,
      lex_stripComments source, stripComments_stripComments source⟩
    intro k i hi
    exact getElem?_lex hi
  · intro a b
    exact lex_append a b

/-- Characters of several bytes count once: the second instruction is the fifth character. -/
theorem lex_past_wide_characters :
    (lex "é+ ∙>")[1]? = some ⟨.moveRight, 1, 4⟩ ∧
      ∃ offset : Nat, (4 : Int) = offset ∧ "é+ ∙>".toList[offset]? = some '>' := by
  have hsecond : (lex "é+ ∙>")[1]? = some ⟨.moveRight, 1, 4⟩ := rfl
  obtain ⟨-, -, hplaces, -⟩ := lex_finds_every_symbol_in_order.1 "é+ ∙>"
  exact ⟨hsecond, (hplaces 1 _ hsecond).2⟩

end TapeLang
