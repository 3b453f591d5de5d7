import Mathlib.Data.Int.Range
import TapeLang.Toolchain

/-!
# Flattening a tree

`Body.flatten` writes a tree as a sequence of instructions again, with a pair of delimiters around
the contents of every loop. Nesting and flattening are inverse to each other up to the offsets of
the delimiters, which a tree does not keep (`nesting_flatten_inverse`).

A partly read program also stands for a sequence, namely what has been read of it (`Nesting.flat`).
Reading one instruction appends it to that sequence, and everything below follows from this step.
-/

set_option autoImplicit false

namespace TapeLang

namespace Body

/-! ## Properties of all instructions -/

/-- Every instruction of a body, at any depth, has a property. -/
def All (P : Instruction → Prop) : Body → Prop
  | nil => True
  | instr i rest => P i ∧ rest.All P
  | loop inner _ _ rest => inner.All P ∧ rest.All P

/-- No delimiter stands inside the tree. -/
def DelimiterFree (b : Body) : Prop :=
  b.All fun i => i.command.isDelimiter = false

instance decidableAll (P : Instruction → Prop) [DecidablePred P] : (b : Body) → Decidable (b.All P)
  | nil => inferInstanceAs (Decidable True)
  | instr i rest =>
      have := decidableAll P rest
      inferInstanceAs (Decidable (P i ∧ rest.All P))
  | loop inner _ _ rest =>
      have := decidableAll P inner
      have := decidableAll P rest
      inferInstanceAs (Decidable (inner.All P ∧ rest.All P))

instance (b : Body) : Decidable b.DelimiterFree :=
  inferInstanceAs (Decidable (b.All _))

/-! ## The flat form of a tree -/

/-- The instructions of a tree in order, with delimiters around the contents of every loop. -/
def flatten : Body → List Instruction
  | nil => []
  | instr i rest => i :: rest.flatten
  | loop inner openIndex closeIndex rest =>
      { command := .loopOpen, index := openIndex } ::
        (inner.flatten ++ { command := .loopClose, index := closeIndex } :: rest.flatten)

theorem All.and {P Q : Instruction → Prop} {b : Body} (hP : b.All P) (hQ : b.All Q) :
    b.All fun i => P i ∧ Q i := by
  induction b with
  | nil => trivial
  | instr i rest ih => exact ⟨⟨hP.1, hQ.1⟩, ih hP.2 hQ.2⟩
  | loop inner openIndex closeIndex rest ihInner ihRest =>
      exact ⟨ihInner hP.1 hQ.1, ihRest hP.2 hQ.2⟩

/-- What holds of the flat form holds of the tree. -/
theorem all_of_flatten {P : Instruction → Prop} {b : Body} (h : ∀ i ∈ b.flatten, P i) :
    b.All P := by
  induction b with
  | nil => trivial
  | instr i rest ih =>
      exact ⟨h i (by simp [flatten]), ih fun j hj => h j (by simp [flatten, hj])⟩
  | loop inner openIndex closeIndex rest ihInner ihRest =>
      exact ⟨ihInner fun j hj => h j (by simp [flatten, hj]),
        ihRest fun j hj => h j (by simp [flatten, hj])⟩

theorem flatten_cons (n : Node) (rest : Body) :
    (cons n rest).flatten = (cons n nil).flatten ++ rest.flatten := by
  cases n with
  | instr i => rfl
  | loop inner openIndex closeIndex => simp [cons, flatten]

theorem flatten_foldl (nodes : List Node) (rest : Body) :
    (nodes.foldl (fun rest n => cons n rest) rest).flatten =
      (ofReversed nodes).flatten ++ rest.flatten := by
  induction nodes generalizing rest with
  | nil => rfl
  | cons n nodes ih =>
      have hnil : (ofReversed (n :: nodes)).flatten =
          (ofReversed nodes).flatten ++ (cons n nil).flatten := ih (cons n nil)
      rw [List.foldl_cons, ih, hnil, flatten_cons n rest, List.append_assoc]

/-- The node that was read last comes last in the flat form. -/
@[simp] theorem flatten_ofReversed_cons (n : Node) (nodes : List Node) :
    (ofReversed (n :: nodes)).flatten = (ofReversed nodes).flatten ++ (cons n nil).flatten :=
  flatten_foldl nodes (cons n nil)

@[simp] theorem flatten_ofReversed_nil : (ofReversed []).flatten = [] := rfl

theorem all_cons (P : Instruction → Prop) (n : Node) (rest : Body) :
    (cons n rest).All P ↔ (cons n nil).All P ∧ rest.All P := by
  cases n with
  | instr i => simp [cons, All]
  | loop inner openIndex closeIndex => simp [cons, All]

theorem all_foldl (P : Instruction → Prop) (nodes : List Node) (rest : Body) :
    (nodes.foldl (fun rest n => cons n rest) rest).All P ↔
      (ofReversed nodes).All P ∧ rest.All P := by
  induction nodes generalizing rest with
  | nil => simp [ofReversed, All]
  | cons n nodes ih =>
      have hnil : (ofReversed (n :: nodes)).All P ↔
          (ofReversed nodes).All P ∧ (cons n nil).All P := ih (cons n nil)
      rw [List.foldl_cons, ih, hnil, all_cons P n rest, and_assoc]

@[simp] theorem all_ofReversed_cons (P : Instruction → Prop) (n : Node) (nodes : List Node) :
    (ofReversed (n :: nodes)).All P ↔ (ofReversed nodes).All P ∧ (cons n nil).All P :=
  all_foldl P nodes (cons n nil)

theorem ofReversed_ontoReversed (before : List Node) (b : Body) :
    ofReversed (b.ontoReversed before) = before.foldl (fun rest n => cons n rest) b := by
  induction b generalizing before with
  | nil => rfl
  | instr i rest ih => exact ih _
  | loop inner openIndex closeIndex rest _ ih => exact ih _

end Body

/-! ## What a partly read program stands for -/

/-- An instruction as far as a tree keeps it: the offset of a delimiter is forgotten. -/
def Instruction.kept (i : Instruction) : Instruction :=
  if i.command.isDelimiter then { i with offset := 0 } else i

@[simp] theorem Instruction.index_kept (i : Instruction) : i.kept.index = i.index := by
  unfold kept
  split <;> rfl

theorem Instruction.command_kept (i : Instruction) : i.kept.command = i.command := by
  unfold kept
  split <;> rfl

namespace Nesting

/-- What was read up to and including the opening delimiter of the innermost open loop. -/
def flatOpened : List OpenLoop → List Instruction
  | [] => []
  | o :: outer =>
      flatOpened outer ++
        ((Body.ofReversed o.before).flatten ++ [{ command := .loopOpen, index := o.index }])

/-- What was read. -/
def flat (s : Nesting) : List Instruction :=
  flatOpened s.opened ++ (Body.ofReversed s.current).flatten

/-- No delimiter stands inside the bodies that were read. -/
structure Clean (s : Nesting) : Prop where
  current : (Body.ofReversed s.current).DelimiterFree
  before : ∀ o ∈ s.opened, (Body.ofReversed o.before).DelimiterFree

/-- **Reading one instruction appends it to what was read.** -/
theorem flat_read {s s' : Nesting} {i : Instruction} (h : s.read i = .ok s') :
    s'.flat = s.flat ++ [i.kept] := by
  rcases s with ⟨current, opened⟩
  rcases i with ⟨command, index, offset⟩
  cases command with
  | loopOpen =>
      simp only [read, Except.ok.injEq] at h
      subst h
      simp [flat, flatOpened, Instruction.kept, Command.isDelimiter]
  | loopClose =>
      cases opened with
      | nil => simp [read] at h
      | cons o outer =>
          simp only [read, Except.ok.injEq] at h
          subst h
          simp [flat, flatOpened, Instruction.kept, Command.isDelimiter, Body.cons, Body.flatten]
  | moveLeft | moveRight | increment | decrement | output | input =>
      simp only [read, Except.ok.injEq] at h
      subst h
      simp [flat, Instruction.kept, Command.isDelimiter, Body.cons, Body.flatten]

theorem Clean.read {s s' : Nesting} {i : Instruction} (hs : s.Clean) (h : s.read i = .ok s') :
    s'.Clean := by
  rcases s with ⟨current, opened⟩
  rcases i with ⟨command, index, offset⟩
  obtain ⟨hcurrent, hbefore⟩ := hs
  cases command with
  | loopOpen =>
      simp only [Nesting.read, Except.ok.injEq] at h
      subst h
      refine ⟨trivial, ?_⟩
      intro o ho
      rcases List.mem_cons.1 ho with rfl | ho
      · exact hcurrent
      · exact hbefore o ho
  | loopClose =>
      cases opened with
      | nil => simp [Nesting.read] at h
      | cons o outer =>
          simp only [Nesting.read, Except.ok.injEq] at h
          subst h
          refine ⟨?_, fun o' ho' => hbefore o' (List.mem_cons_of_mem o ho')⟩
          -- the closed body was the current one, and its parent was put aside before
          have ho := hbefore o List.mem_cons_self
          simp only [Body.DelimiterFree, Body.all_ofReversed_cons] at ho ⊢
          exact ⟨ho, hcurrent, trivial⟩
  | moveLeft | moveRight | increment | decrement | output | input =>
      simp only [Nesting.read, Except.ok.injEq] at h
      subst h
      refine ⟨?_, hbefore⟩
      simp only [Body.DelimiterFree, Body.all_ofReversed_cons] at hcurrent ⊢
      exact ⟨hcurrent, rfl, trivial⟩

theorem readAll_cons {s : Nesting} {i : Instruction} {rest : List Instruction} {s' : Nesting}
    (h : s.read i = .ok s') : s.readAll (i :: rest) = s'.readAll rest := by
  simp [readAll, h]

theorem readAll_append {s s' : Nesting} {xs : List Instruction} (ys : List Instruction)
    (h : s.readAll xs = .ok s') : s.readAll (xs ++ ys) = s'.readAll ys := by
  induction xs generalizing s with
  | nil =>
      simp only [readAll, Except.ok.injEq] at h
      subst h
      rfl
  | cons i rest ih =>
      simp only [List.cons_append, readAll] at h ⊢
      cases hr : s.read i with
      | error e => simp [hr] at h
      | ok s₁ =>
          simp only [hr] at h
          exact ih h

/-- **A whole reading appends its instructions, and keeps delimiters out of the bodies.** -/
theorem readAll_spec {s s' : Nesting} {xs : List Instruction} (hs : s.Clean)
    (h : s.readAll xs = .ok s') : s'.flat = s.flat ++ xs.map Instruction.kept ∧ s'.Clean := by
  induction xs generalizing s with
  | nil =>
      simp only [readAll, Except.ok.injEq] at h
      subst h
      exact ⟨by simp, hs⟩
  | cons i rest ih =>
      simp only [readAll] at h
      cases hr : s.read i with
      | error e => simp [hr] at h
      | ok s₁ =>
          simp only [hr] at h
          obtain ⟨hflat, hclean⟩ := ih (hs.read hr) h
          refine ⟨?_, hclean⟩
          rw [hflat, flat_read hr, List.map_cons, List.append_assoc]
          rfl

theorem read_primitive (s : Nesting) {i : Instruction} (hi : i.command.isDelimiter = false) :
    s.read i = .ok { s with current := .instr i :: s.current } := by
  rcases i with ⟨command, index, offset⟩
  cases command with
  | loopOpen | loopClose => simp [Command.isDelimiter] at hi
  | moveLeft | moveRight | increment | decrement | output | input => rfl

/-- **Reading the flat form of a body adds the nodes of the body.** -/
theorem readAll_flatten {b : Body} (hb : b.DelimiterFree) (s : Nesting) :
    s.readAll b.flatten = .ok { s with current := b.ontoReversed s.current } := by
  induction b generalizing s with
  | nil => rfl
  | instr i rest ih =>
      rw [Body.flatten, readAll_cons (s.read_primitive hb.1), ih hb.2]
      rfl
  | loop inner openIndex closeIndex rest ihInner ihRest =>
      -- open, contents, close: the close finds the contents as the current nodes
      have hinner := ihInner hb.1 { current := [], opened := ⟨openIndex, s.current⟩ :: s.opened }
      have hbody : Body.ofReversed (inner.ontoReversed []) = inner :=
        Body.ofReversed_ontoReversed [] inner
      rw [Body.flatten, readAll_cons rfl, readAll_append _ hinner, readAll_cons rfl, ihRest hb.2]
      simp only [Body.ontoReversed, hbody]

end Nesting

/-! ## The nodes of a tree and their indices -/

/-- The indices of a sequence of instructions count up from `a`. -/
def NumberedFrom : Int → List Instruction → Prop
  | _, [] => True
  | a, i :: rest => i.index = a ∧ NumberedFrom (a + 1) rest

theorem numberedFrom_append (a : Int) (xs ys : List Instruction) :
    NumberedFrom a (xs ++ ys) ↔ NumberedFrom a xs ∧ NumberedFrom (a + (xs.length : Int)) ys := by
  induction xs generalizing a with
  | nil => simp [NumberedFrom]
  | cons i rest ih =>
      have hshift : a + 1 + (rest.length : Int) = a + ((i :: rest).length : Int) := by
        rw [List.length_cons]
        omega
      rw [List.cons_append, NumberedFrom, NumberedFrom, ih, and_assoc, hshift]

theorem NumberedFrom.index_of_mem {a : Int} {xs : List Instruction} (h : NumberedFrom a xs)
    {i : Instruction} (hi : i ∈ xs) : a ≤ i.index ∧ i.index < a + (xs.length : Int) := by
  induction xs generalizing a with
  | nil => cases hi
  | cons x xs ih =>
      rw [List.length_cons]
      rcases List.mem_cons.1 hi with rfl | hi
      · have hindex := h.1
        omega
      · have hrest := ih h.2 hi
        omega

theorem NumberedFrom.map_index {a c : Int} {xs : List Instruction} (h : NumberedFrom a xs)
    (hc : c = a + (xs.length : Int)) : xs.map Instruction.index = Int.range a c := by
  subst hc
  induction xs generalizing a with
  | nil => simp [Int.range]
  | cons i rest ih =>
      obtain ⟨rfl, hrest⟩ := h
      have hwidth : (i.index + ((i :: rest).length : Int) - i.index).toNat = rest.length + 1 := by
        rw [List.length_cons]
        omega
      have hwidth' : (i.index + 1 + (rest.length : Int) - (i.index + 1)).toNat = rest.length := by
        omega
      rw [List.map_cons, ih hrest, Int.range, Int.range, hwidth, hwidth', List.range_succ_eq_map,
        List.map_cons, List.map_map]
      congr 1
      · simp
      · apply List.map_congr_left
        intro k _
        simp only [Function.comp_apply, Nat.succ_eq_add_one]
        omega

/-- Forgetting offsets does not change the numbers. -/
theorem NumberedFrom.map_kept {a : Int} {xs : List Instruction} (h : NumberedFrom a xs) :
    NumberedFrom a (xs.map Instruction.kept) := by
  induction xs generalizing a with
  | nil => trivial
  | cons i rest ih => exact ⟨i.index_kept.trans h.1, ih h.2⟩

/-- The instructions of a text are numbered from zero. -/
theorem numberedFrom_lex (source : String) : NumberedFrom 0 (lex source) := by
  -- a sequence numbered by position, from any position on
  have hzip : ∀ (cs : List (Command × Nat)) (n : Nat),
      NumberedFrom n ((cs.zipIdx n).map fun located =>
        { command := located.1.1, index := located.2, offset := located.1.2 }) := by
    intro cs
    induction cs with
    | nil => intro n; trivial
    | cons c cs ih =>
        intro n
        exact ⟨rfl, by simpa using ih (n + 1)⟩
  exact hzip (located source.toList) 0

namespace Body

/-- A loop occurs in a body, at any depth. -/
inductive HasLoop (inner : Body) (openIndex closeIndex : Int) : Body → Prop where
  | here (rest : Body) : HasLoop inner openIndex closeIndex (loop inner openIndex closeIndex rest)
  | inside {b : Body} (o c : Int) (rest : Body) :
      HasLoop inner openIndex closeIndex b → HasLoop inner openIndex closeIndex (loop b o c rest)
  | afterInstr (i : Instruction) {rest : Body} :
      HasLoop inner openIndex closeIndex rest → HasLoop inner openIndex closeIndex (instr i rest)
  | afterLoop (b : Body) (o c : Int) {rest : Body} :
      HasLoop inner openIndex closeIndex rest → HasLoop inner openIndex closeIndex (loop b o c rest)

/-- **In a tree whose flat form is numbered, a loop stands around the numbers of its contents.** -/
theorem HasLoop.numbered {b inner : Body} {a openIndex closeIndex : Int}
    (h : HasLoop inner openIndex closeIndex b) (hb : NumberedFrom a b.flatten) :
    NumberedFrom (openIndex + 1) inner.flatten ∧
      closeIndex = openIndex + 1 + (inner.flatten.length : Int) := by
  induction h generalizing a with
  | here rest =>
      obtain ⟨rfl, htail⟩ := hb
      obtain ⟨hinner, hclose, -⟩ := (numberedFrom_append _ _ _).1 htail
      exact ⟨hinner, hclose⟩
  | inside o c rest _ ih =>
      obtain ⟨-, htail⟩ := hb
      exact ih ((numberedFrom_append _ _ _).1 htail).1
  | afterInstr i _ ih => exact ih hb.2
  | afterLoop b o c _ ih =>
      obtain ⟨-, htail⟩ := hb
      exact ih ((numberedFrom_append _ _ _).1 htail).2.2

end Body

/-! ## Nesting and flattening -/

theorem nestLogged_value (xs : List Instruction) :
    (nestLogged xs).value = (Program.ofInstructions xs).mapError Imbalance.fault := by
  unfold nestLogged
  cases Program.ofInstructions xs with
  | ok p => rfl
  | error e => rfl

theorem parse_value (source : String) : (parse source).value = (nestLogged (lex source)).value :=
  rfl

/-- A program comes from a reading that ends with no loop open. -/
theorem nestLogged_eq_ok_iff {xs : List Instruction} {p : Program} :
    (nestLogged xs).value = .ok p ↔
      ∃ s, ({} : Nesting).readAll xs = .ok s ∧ s.opened = [] ∧
        p = { body := .ofReversed s.current, instructionCount := xs.length } := by
  rw [nestLogged_value, Program.ofInstructions]
  cases hread : ({} : Nesting).readAll xs with
  | error e => simp [Except.mapError]
  | ok s =>
      cases hopened : s.opened with
      | nil => simp [Nesting.finish, hopened, Except.map, Except.mapError, eq_comm]
      | cons o outer => simp [Nesting.finish, hopened, Except.map, Except.mapError]

/-- What a program keeps of the instructions it was read from. -/
theorem flatten_of_nestLogged {xs : List Instruction} {p : Program}
    (h : (nestLogged xs).value = .ok p) :
    p.body.flatten = xs.map Instruction.kept ∧ p.instructionCount = xs.length ∧
      p.body.DelimiterFree := by
  obtain ⟨s, hread, hopened, rfl⟩ := nestLogged_eq_ok_iff.1 h
  obtain ⟨hflat, hclean⟩ := Nesting.readAll_spec (s := {}) ⟨trivial, by simp⟩ hread
  refine ⟨?_, rfl, hclean.current⟩
  simpa [Nesting.flat, Nesting.flatOpened, hopened] using hflat

theorem nestLogged_flatten {b : Body} (hb : b.DelimiterFree) :
    (nestLogged b.flatten).value = .ok { body := b, instructionCount := b.flatten.length } := by
  refine nestLogged_eq_ok_iff.2 ⟨_, Nesting.readAll_flatten hb {}, rfl, ?_⟩
  have hbody : Body.ofReversed (b.ontoReversed []) = b := Body.ofReversed_ontoReversed [] b
  simp only [hbody]

/-- The flat form of the program of a text is numbered from zero. -/
theorem numberedFrom_of_parse {source : String} {p : Program} (h : (parse source).value = .ok p) :
    NumberedFrom 0 p.body.flatten ∧ p.instructionCount = p.body.flatten.length := by
  obtain ⟨hflat, hcount, -⟩ := flatten_of_nestLogged (parse_value source ▸ h)
  rw [hflat, hcount, List.length_map]
  exact ⟨(numberedFrom_lex source).map_kept, rfl⟩

/-- **Nesting and flattening are inverse.** A program flattens to the instructions it was read
from, less the offsets of the delimiters, and no delimiter is left in it. A tree without delimiters
is what its flat form nests to. In the program of a text every index occurs once and in order, and
a loop stands around exactly the indices between its own two. -/
theorem nesting_flatten_inverse :
    (∀ (xs : List Instruction) (p : Program), (nestLogged xs).value = .ok p →
      p.body.flatten = xs.map Instruction.kept ∧ p.instructionCount = xs.length ∧
        p.body.DelimiterFree) ∧
    (∀ b : Body, b.DelimiterFree →
      (nestLogged b.flatten).value = .ok { body := b, instructionCount := b.flatten.length }) ∧
    (∀ (source : String) (p : Program), (parse source).value = .ok p →
      p.body.flatten.map Instruction.index = Int.range 0 p.instructionCount ∧
        ∀ (inner : Body) (openIndex closeIndex : Int),
          Body.HasLoop inner openIndex closeIndex p.body →
            openIndex < closeIndex ∧
              inner.flatten.map Instruction.index = Int.range (openIndex + 1) closeIndex) := by
  refine ⟨fun xs p h => flatten_of_nestLogged h, fun b hb => nestLogged_flatten hb, ?_⟩
  intro source p h
  obtain ⟨hnumbered, hcount⟩ := numberedFrom_of_parse h
  refine ⟨hnumbered.map_index (by omega), ?_⟩
  intro inner openIndex closeIndex hloop
  obtain ⟨hinner, hclose⟩ := hloop.numbered hnumbered
  exact ⟨by omega, hinner.map_index hclose⟩

end TapeLang
