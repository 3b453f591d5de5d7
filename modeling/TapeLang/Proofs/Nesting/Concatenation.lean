import TapeLang.Proofs.Machine.Lockstep
import TapeLang.Proofs.Machine.Structured
import TapeLang.Proofs.Nesting.Flatten

/-!
# The concatenation of two texts

A text in front of another moves the instructions of the other: their indices by the number of its
instructions, their offsets by the number of its characters (`lex_append`). If both texts are
programs, so is their concatenation, and its tree is the one followed by the other with its labels
moved (`parse_append`).

A tree is found by its flat form: a text is the program of every tree that flattens to its
instructions (`parse_eq_ok_of_flatten`). So it is enough to see that flattening commutes with
putting two trees together and with relabelling.
-/

set_option autoImplicit false

namespace TapeLang

/-! ## Relabelling and flattening -/

/-- A relabelled delimiter as a tree keeps it. -/
theorem Relabelling.Faithful.kept_delimiter {l : Relabelling} (hl : l.Faithful) {i : Instruction}
    (hi : i.command.isDelimiter = true) :
    (l.instruction i).kept = { command := i.command, index := l.index i.index } := by
  rw [← hl.command_eq i, ← hl.index_eq i, Instruction.kept, hl.command_eq, if_pos hi]

/-- A tree keeps the other instructions as they are. -/
theorem Instruction.kept_of_not_delimiter {i : Instruction}
    (hi : i.command.isDelimiter = false) : i.kept = i := by
  simp [kept, hi]

/-- Forgetting the offset of a delimiter before relabelling makes no difference after it. -/
theorem Relabelling.Faithful.kept_kept {l : Relabelling} (hl : l.Faithful) (i : Instruction) :
    (l.instruction i.kept).kept = (l.instruction i).kept := by
  cases hi : i.command.isDelimiter with
  | true =>
      have hkept : i.kept = { i with offset := 0 } := if_pos hi
      rw [hkept, hl.kept_delimiter hi]
      exact hl.kept_delimiter hi
  | false => rw [Instruction.kept_of_not_delimiter hi]

namespace Body

@[simp] theorem flatten_append (a b : Body) : (a ++ b).flatten = a.flatten ++ b.flatten := by
  induction a with
  | nil => rfl
  | instr i rest ih => rw [instr_append, flatten, flatten, ih, List.cons_append]
  | loop inner openIndex closeIndex rest _ ih => simp [flatten, ih]

theorem DelimiterFree.append {a b : Body} (ha : a.DelimiterFree) (hb : b.DelimiterFree) :
    (a ++ b).DelimiterFree := by
  induction a with
  | nil => exact hb
  | instr i rest ih => exact ⟨ha.1, ih ha.2⟩
  | loop inner openIndex closeIndex rest _ ih => exact ⟨ha.1, ih ha.2⟩

variable {l : Relabelling}

theorem DelimiterFree.relabel (hl : l.Faithful) {b : Body} (hb : b.DelimiterFree) :
    (b.relabel l).DelimiterFree := by
  induction b with
  | nil => trivial
  | instr i rest ih =>
      refine ⟨?_, ih hb.2⟩
      show (l.instruction i).command.isDelimiter = false
      rw [hl.command_eq]
      exact hb.1
  | loop inner openIndex closeIndex rest ihInner ihRest => exact ⟨ihInner hb.1, ihRest hb.2⟩

/-- Relabelling a tree relabels what it keeps of the instructions. -/
theorem flatten_relabel (hl : l.Faithful) {b : Body} (hb : b.DelimiterFree) :
    (b.relabel l).flatten = b.flatten.map fun i => (l.instruction i).kept := by
  induction b with
  | nil => rfl
  | instr i rest ih =>
      have hi : (l.instruction i).kept = l.instruction i := by
        apply Instruction.kept_of_not_delimiter
        rw [hl.command_eq]
        exact hb.1
      rw [relabel, flatten, flatten, List.map_cons, hi, ih hb.2]
  | loop inner openIndex closeIndex rest ihInner ihRest =>
      rw [relabel, flatten, flatten, List.map_cons, List.map_append, List.map_cons,
        hl.kept_delimiter rfl, hl.kept_delimiter rfl, ihInner hb.1, ihRest hb.2]

end Body

/-! ## Reading the text -/

/-- Characters in front of others move the offsets of their commands. -/
theorem located_append (xs ys : List Char) :
    located (xs ++ ys) =
      located xs ++ (located ys).map fun (command, offset) => (command, xs.length + offset) := by
  rw [located, List.zipIdx_append, List.filterMap_append, Nat.zero_add,
    List.zipIdx_eq_map_add (i := xs.length), List.filterMap_map]
  simp [located, List.map_filterMap, Function.comp_def]

/-- **A text in front of another moves its instructions.** -/
theorem lex_append (a b : String) :
    lex (a ++ b) =
      lex a ++ (lex b).map (Relabelling.shift (lex a).length a.length).instruction := by
  have hlength : (located a.toList).length = (lex a).length := by simp [lex]
  have hchars : a.toList.length = a.length := String.length_toList
  rw [lex, String.toList_append, located_append, List.zipIdx_append, List.map_append,
    Nat.zero_add, hlength, hchars, List.zipIdx_eq_map_add (i := (lex a).length), List.zipIdx_map]
  simp [lex, Relabelling.shift, Function.comp_def, Int.add_comm]

/-! ## Reading the tree -/

theorem Nesting.read_kept (s : Nesting) (i : Instruction) : s.read i.kept = s.read i := by
  obtain ⟨command, index, offset⟩ := i
  cases command <;> rfl

/-- The offsets of delimiters play no part in nesting. -/
theorem Nesting.readAll_map_kept (s : Nesting) (xs : List Instruction) :
    s.readAll (xs.map Instruction.kept) = s.readAll xs := by
  induction xs generalizing s with
  | nil => rfl
  | cons i rest ih =>
      simp only [List.map_cons, readAll, read_kept, ih]

/-- **A text is the program of any tree that flattens to its instructions.** -/
theorem parse_eq_ok_of_flatten {source : String} {b : Body} (hb : b.DelimiterFree)
    (h : b.flatten = (lex source).map Instruction.kept) :
    (parse source).value = .ok { body := b, instructionCount := (lex source).length } := by
  obtain ⟨s, hread, hopened, hprogram⟩ := nestLogged_eq_ok_iff.1 (nestLogged_flatten hb)
  rw [h, Nesting.readAll_map_kept] at hread
  rw [parse_value, nestLogged_eq_ok_iff]
  refine ⟨s, hread, hopened, ?_⟩
  rw [Program.mk.injEq] at hprogram ⊢
  exact ⟨hprogram.1, rfl⟩

/-- **The program of a concatenation.** -/
theorem parse_append {a b : String} {p q : Program} (hp : (parse a).value = .ok p)
    (hq : (parse b).value = .ok q) :
    (parse (a ++ b)).value = .ok
      { body := p.body ++ q.body.relabel (.shift p.instructionCount a.length)
        instructionCount := p.instructionCount + q.instructionCount } := by
  obtain ⟨hflat, hcount, hfree⟩ := flatten_of_nestLogged (parse_value a ▸ hp)
  obtain ⟨hflat', hcount', hfree'⟩ := flatten_of_nestLogged (parse_value b ▸ hq)
  have hfaithful := Relabelling.faithful_shift (lex a).length a.length
  -- the two trees flatten to what the two texts are read into, the second one with moved labels
  rw [hcount, hcount', parse_eq_ok_of_flatten (hfree.append (hfree'.relabel hfaithful)), lex_append]
  · rw [List.length_append, List.length_map]
    rfl
  · rw [Body.flatten_append, Body.flatten_relabel hfaithful hfree', hflat, hflat', lex_append,
      List.map_append, List.map_map, List.map_map]
    congr 2
    funext i
    exact hfaithful.kept_kept i

end TapeLang
