import TapeLang.Body.Tour
import TapeLang.Generator
import TapeLang.Proofs.Nesting.Flatten

/-!
# The compilation scheme

Read by recursion on the tree, the code of a program is simple: an instruction has its own lines,
and a loop takes the next number, wraps the code of its contents into a test and a jump back, and
leaves the numbers that its contents did not take to the nodes after it.

The generator walks instead, with a stack of the numbers of the loops it is inside. The main
statement is `Generator.generate_eq`: for a tree without delimiters both give the same lines.
-/

set_option autoImplicit false

namespace TapeLang

open Assembly

/-! ## The scheme -/

/-- A comment, if comments are wanted. -/
def remark (annotate : Bool) (c : Comment) : Listing :=
  if annotate then [.comment c] else []

/-- The lines of an instruction; a loop delimiter has none. -/
def Instruction.lines (config : TapeConfig) (i : Instruction) : Listing :=
  (i.code? config).getD []

/-- The test at the head of the loop with the number `n`. -/
def loopHead (n : Nat) : Listing :=
  [.label (.loop n), binary .cmp cell (.value (.number 0)), jump .equal (.loopEnd n)]

/-- The jump back at the end of the loop with the number `n`. -/
def loopFoot (n : Nat) : Listing :=
  [jump .always (.loop n), .label (.loopEnd n)]

namespace Body

/-- The number of loops in a tree. -/
def loops : Body → Nat
  | nil => 0
  | instr _ rest => rest.loops
  | loop inner _ _ rest => inner.loops + 1 + rest.loops

/-- The code of a tree whose first loop has the number `n`. -/
def code (config : TapeConfig) (annotate : Bool) (n : Nat) : Body → Listing
  | nil => []
  | instr i rest =>
      remark annotate (.instruction i.command i.index) ++
        (i.lines config ++ rest.code config annotate n)
  | loop inner openIndex closeIndex rest =>
      remark annotate (.loop openIndex closeIndex) ++
        (loopHead n ++ (inner.code config annotate (n + 1) ++
          (loopFoot n ++ rest.code config annotate (n + (inner.loops + 1)))))

/-- What holds of comments, of the lines of instructions and of the lines around loops holds of all
the code of a tree. -/
theorem all_code {P : Line → Bool} {config : TapeConfig} (annotate : Bool)
    (hremark : ∀ c, P (.comment c) = true) (hlines : ∀ i, (Instruction.lines config i).all P = true)
    (hloop : ∀ n, (loopHead n ++ loopFoot n).all P = true) (n : Nat) (b : Body) :
    (b.code config annotate n).all P = true := by
  have hnote : ∀ c, (remark annotate c).all P = true := by
    intro c
    cases annotate with
    | true => rw [remark, if_pos rfl, List.all_cons, hremark c, List.all_nil, Bool.and_true]
    | false => rfl
  induction b generalizing n with
  | nil => rfl
  | instr i rest ih =>
      rw [code, List.all_append, List.all_append, hnote, hlines i, ih n]
      rfl
  | loop inner openIndex closeIndex rest ihInner ihRest =>
      have haround := hloop n
      rw [List.all_append, Bool.and_eq_true] at haround
      rw [code, List.all_append, List.all_append, List.all_append, List.all_append, hnote,
        haround.1, haround.2, ihInner (n + 1), ihRest]
      rfl

/-- The code of an instruction in front of other lines. -/
theorem code_instr_append (config : TapeConfig) (annotate : Bool) (n : Nat) (i : Instruction)
    (rest : Body) (after : Listing) :
    (instr i rest).code config annotate n ++ after =
      remark annotate (.instruction i.command i.index) ++
        (i.lines config ++ (rest.code config annotate n ++ after)) := by
  simp only [code, List.append_assoc]

/-- The code of a loop in front of other lines. -/
theorem code_loop_append (config : TapeConfig) (annotate : Bool) (n : Nat) (inner rest : Body)
    (openIndex closeIndex : Int) (after : Listing) :
    (loop inner openIndex closeIndex rest).code config annotate n ++ after =
      remark annotate (.loop openIndex closeIndex) ++
        (loopHead n ++ (inner.code config annotate (n + 1) ++
          (loopFoot n ++ (rest.code config annotate (n + (inner.loops + 1)) ++ after)))) := by
  simp only [code, List.append_assoc]

end Body

/-- The parts of a listing after the code of the program. -/
def trailer (config : TapeConfig) : Listing :=
  epilogue ++ (faultRoutines config ++ dataSegment config)

/-- The listing of a tree. -/
def listingOf (config : TapeConfig) (annotate : Bool) (b : Body) : Listing :=
  header config.length ++ (b.code config annotate 0 ++ trailer config)

/-! ## Writing by walking -/

/-- Only a loop delimiter has no code. -/
theorem Instruction.code?_eq_some {i : Instruction} (hi : i.command.isDelimiter = false)
    (config : TapeConfig) : i.code? config = some (i.lines config) := by
  obtain ⟨command, index, offset⟩ := i
  cases command with
  | loopOpen => cases hi
  | loopClose => cases hi
  | moveLeft | moveRight | increment | decrement | output | input => rfl

theorem Instruction.code?_eq_none {i : Instruction} (hi : i.command.isDelimiter = true)
    (config : TapeConfig) : i.code? config = none := by
  obtain ⟨command, index, offset⟩ := i
  cases command with
  | loopOpen | loopClose => rfl
  | moveLeft | moveRight | increment | decrement | output | input => cases hi

namespace Page

theorem note_eq_write (p : Page) (annotate : Bool) (c : Comment) :
    p.note annotate c = p.write (remark annotate c) := by
  cases annotate with
  | true => rfl
  | false => simp [note, remark, write]

theorem write_write (p : Page) (a b : Listing) : (p.write a).write b = p.write (a ++ b) := by
  have h : p.lines ++ a ++ b = p.lines ++ (a ++ b) := Array.toList_inj.1 (by simp)
  simp only [write, h]

/-- A page with lines written on it and a number of loops entered and left. -/
def extend (p : Page) (more : Listing) (loops : Nat) : Page :=
  { p.write more with loops := p.loops + loops }

theorem extend_nil (p : Page) : p.extend [] 0 = p := by
  simp [extend, write]

theorem extend_extend (p : Page) (a b : Listing) (k l : Nat) :
    (p.extend a k).extend b l = p.extend (a ++ b) (k + l) := by
  have h := write_write p a b
  simp only [write, Page.mk.injEq, and_true] at h
  simp only [extend, write, h, Nat.add_assoc]

theorem write_eq_extend (p : Page) (a : Listing) : p.write a = p.extend a 0 := rfl

/-- A loop is written by writing its head, its contents and its foot. -/
theorem closeLoop_extend_openLoop (p : Page) (inner : Listing) (k : Nat) :
    (p.openLoop.extend inner k).closeLoop =
      p.extend (loopHead p.loops ++ (inner ++ loopFoot p.loops)) (k + 1) := by
  simp only [openLoop, extend, write, closeLoop, loopHead, loopFoot, Page.mk.injEq, and_true]
  refine ⟨Array.toList_inj.1 ?_, by omega⟩
  simp

/-- **A walk through a tree writes the code of the tree.** -/
theorem writeAll_tour (config : TapeConfig) (annotate : Bool) {b : Body} (hb : b.DelimiterFree)
    (depth : Nat) (rest : List Visit) (p : Page) :
    writeAll config annotate (b.tour depth ++ rest) p =
      writeAll config annotate rest (p.extend (b.code config annotate p.loops) b.loops) := by
  induction b generalizing depth rest p with
  | nil =>
      rw [Body.tour, Body.code, Body.loops, extend_nil]
      rfl
  | instr i after ih =>
      obtain ⟨hi, hafter⟩ := hb
      rw [Body.tour, List.cons_append, writeAll, Instruction.code?_eq_some hi]
      show writeAll config annotate (after.tour depth ++ rest) _ = _
      rw [ih hafter, note_eq_write, write_write, write_eq_extend, extend_extend, Nat.zero_add]
      simp [Body.code, Body.loops, extend]
  | loop inner openIndex closeIndex after ihInner ihAfter =>
      obtain ⟨hinner, hafter⟩ := hb
      -- the number of the loop is still innermost when its contents have been written
      rw [Body.tour, List.cons_append, writeAll, List.append_assoc, ihInner hinner]
      rw [List.cons_append, writeAll, ihAfter hafter, closeLoop_extend_openLoop, note_eq_write]
      rw [write_eq_extend, extend_extend, extend_extend]
      simp [Body.code, Body.loops, extend, openLoop, write, Nat.add_assoc, Nat.add_comm]

end Page

/-- **The generator follows the scheme.** -/
theorem Generator.generate_eq (g : Generator) {p : Program} (hp : p.body.DelimiterFree) :
    (g.generate p).2 = .ok (listingOf g.config g.annotate p.body) := by
  have hwalk := Page.writeAll_tour g.config g.annotate hp 0 [] {}
  rw [List.append_nil, ← Body.visits_eq_tour, Page.writeAll] at hwalk
  simp only [generate, hwalk]
  simp [Page.extend, Page.write, listingOf, trailer]

/-- A walk that is written to its end meets no delimiter. -/
theorem Page.delimiterFree_of_writeAll {config : TapeConfig} {annotate : Bool} {b : Body}
    {depth : Nat} {rest : List Visit} {p : Page}
    (h : (writeAll config annotate (b.tour depth ++ rest) p).2 = none) :
    b.DelimiterFree ∧ ∃ p', (writeAll config annotate rest p').2 = none := by
  induction b generalizing depth rest p with
  | nil => exact ⟨trivial, p, h⟩
  | instr i after ih =>
      rw [Body.tour, List.cons_append, writeAll] at h
      cases hi : i.command.isDelimiter with
      | false =>
          rw [Instruction.code?_eq_some hi] at h
          obtain ⟨hafter, hrest⟩ := ih h
          exact ⟨⟨hi, hafter⟩, hrest⟩
      | true =>
          rw [Instruction.code?_eq_none hi] at h
          cases h
  | loop inner openIndex closeIndex after ihInner ihAfter =>
      rw [Body.tour, List.cons_append, writeAll, List.append_assoc] at h
      obtain ⟨hinner, p', h'⟩ := ihInner h
      rw [List.cons_append, writeAll] at h'
      obtain ⟨hafter, hrest⟩ := ihAfter h'
      exact ⟨⟨hinner, hafter⟩, hrest⟩

/-- Only a program without delimiters has a listing. -/
theorem Generator.delimiterFree_of_generate {g : Generator} {p : Program} {listing : Listing}
    (h : (g.generate p).2 = .ok listing) : p.body.DelimiterFree := by
  have hstuck : (Page.writeAll g.config g.annotate (p.body.tour 0 ++ []) {}).2 = none := by
    rw [List.append_nil, ← Body.visits_eq_tour]
    unfold generate at h
    cases hs : (Page.writeAll g.config g.annotate p.body.visits {}).2 with
    | none => rfl
    | some i =>
        simp only [hs] at h
        cases h
  exact (Page.delimiterFree_of_writeAll hstuck).1

end TapeLang
