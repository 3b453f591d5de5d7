import TapeLang.Proofs.Machine.Lockstep
import TapeLang.Proofs.Nesting.Flatten

/-!
# Texts without their comments

What a text says, besides its comments, is the sequence of its commands (`commandsOf`). Stripping
the comments keeps exactly that (`stripComments_eq_iff`), and so does forgetting the offsets of the
instructions (`map_bare_lex`).

Offsets play no part in nesting: forgetting them before reading a tree or after it makes no
difference (`ofInstructions_bare`). So texts that differ in their comments nest alike
(`parse_bare_eq`).
-/

set_option autoImplicit false

namespace TapeLang

/-! ## Commands of a text -/

/-- The commands of a text, in order. -/
def commandsOf (source : String) : List Command :=
  source.toList.filterMap Command.ofSymbol?

/-- Where the commands stand is the only other thing that is known of them. -/
theorem map_fst_located (chars : List Char) :
    (located chars).map Prod.fst = chars.filterMap Command.ofSymbol? := by
  have hlocated : located chars =
      chars.zipIdx.filterMap fun x => (Command.ofSymbol? x.1).map (·, x.2) := rfl
  have hplace : ∀ x : Char × Nat,
      ((Command.ofSymbol? x.1).map (·, x.2)).map Prod.fst = Command.ofSymbol? x.1 := by
    intro x
    simp [Function.comp_def]
  rw [hlocated, List.map_filterMap, funext hplace]
  show chars.zipIdx.filterMap (Command.ofSymbol? ∘ Prod.fst) = _
  rw [← List.filterMap_map, List.zipIdx_map_fst]

theorem map_command_lex (source : String) :
    (lex source).map Instruction.command = commandsOf source := by
  rw [lex, List.map_map, commandsOf, ← map_fst_located]
  show (located source.toList).zipIdx.map (Prod.fst ∘ Prod.fst) = _
  rw [← List.map_map, List.zipIdx_map_fst]

/-- Stripping a text leaves the symbols of its commands. -/
theorem toList_stripComments (source : String) :
    (stripComments source).toList = (commandsOf source).map Command.symbol := by
  rw [stripComments, String.toList_ofList, commandsOf]
  induction source.toList with
  | nil => rfl
  | cons c chars ih =>
      cases hc : Command.ofSymbol? c with
      | none => simp [hc, ih]
      | some command => simp [hc, ih, Command.symbol_of_ofSymbol? hc]

theorem filterMap_symbols (commands : List Command) :
    (commands.map Command.symbol).filterMap Command.ofSymbol? = commands := by
  induction commands with
  | nil => rfl
  | cons command commands ih => simp [ih]

/-- A stripped text has the commands of the text. -/
theorem commandsOf_stripComments (source : String) :
    commandsOf (stripComments source) = commandsOf source := by
  rw [commandsOf, toList_stripComments, filterMap_symbols]

/-- **Texts are the same without their comments exactly if they have the same commands.** -/
theorem stripComments_eq_iff {a b : String} :
    stripComments a = stripComments b ↔ commandsOf a = commandsOf b := by
  constructor
  · intro h
    rw [← commandsOf_stripComments a, ← commandsOf_stripComments b, h]
  · intro h
    apply String.toList_injective
    rw [toList_stripComments, toList_stripComments, h]

/-! ## Forgetting offsets -/

/-- An instruction without its place in the text. -/
def Instruction.bare (i : Instruction) : Instruction :=
  { i with offset := 0 }

/-- Labels without places in the text. -/
def Relabelling.bare : Relabelling := ⟨Instruction.bare, id⟩

theorem Relabelling.faithful_bare : bare.Faithful :=
  ⟨fun _ => rfl, fun _ => rfl⟩

/-- A program without places in the text. -/
def Program.bare (p : Program) : Program :=
  { p with body := p.body.relabel .bare }

/-- Without their places, the instructions of a text are its commands with their numbers. -/
theorem map_bare_lex (source : String) :
    (lex source).map Instruction.bare =
      (commandsOf source).zipIdx.map fun (command, k) => { command, index := k } := by
  rw [lex, List.map_map, commandsOf, ← map_fst_located, List.zipIdx_map, List.map_map]
  rfl

/-! ## Nesting without offsets -/

/-- A node without places in the text. -/
def Node.bare : Node → Node
  | .instr i => .instr i.bare
  | .loop inner openIndex closeIndex => .loop (inner.relabel .bare) openIndex closeIndex

/-- An open loop without places in the text. -/
def OpenLoop.bare (o : OpenLoop) : OpenLoop :=
  { o with before := o.before.map Node.bare }

/-- A partly read program without places in the text. -/
def Nesting.bare (s : Nesting) : Nesting where
  current := s.current.map Node.bare
  opened := s.opened.map OpenLoop.bare

theorem Body.relabel_bare_cons (n : Node) (rest : Body) :
    (Body.cons n rest).relabel .bare = Body.cons n.bare (rest.relabel .bare) := by
  cases n <;> rfl

theorem Body.ofReversed_map_bare (nodes : List Node) :
    Body.ofReversed (nodes.map Node.bare) = (Body.ofReversed nodes).relabel .bare := by
  -- the nodes are put in front of a body that is already there
  have hfold : ∀ rest : Body,
      (nodes.map Node.bare).foldl (fun rest n => Body.cons n rest) (rest.relabel .bare) =
        (nodes.foldl (fun rest n => Body.cons n rest) rest).relabel .bare := by
    induction nodes with
    | nil => exact fun rest => rfl
    | cons n nodes ih =>
        intro rest
        rw [List.map_cons, List.foldl_cons, List.foldl_cons, ← Body.relabel_bare_cons, ih]
  exact hfold .nil

namespace Nesting

/-- **Reading an instruction looks at no offset.** -/
theorem read_bare (s : Nesting) (i : Instruction) :
    s.bare.read i.bare = (s.read i).map Nesting.bare := by
  obtain ⟨current, opened⟩ := s
  obtain ⟨command, index, offset⟩ := i
  cases command with
  | loopOpen | moveLeft | moveRight | increment | decrement | output | input => rfl
  | loopClose =>
      cases opened with
      | nil => rfl
      | cons o outer =>
          simp only [read, bare, Instruction.bare, List.map_cons, Except.map, OpenLoop.bare,
            Node.bare, Body.ofReversed_map_bare]

theorem readAll_bare (s : Nesting) (xs : List Instruction) :
    s.bare.readAll (xs.map Instruction.bare) = (s.readAll xs).map Nesting.bare := by
  induction xs generalizing s with
  | nil => rfl
  | cons i rest ih =>
      rw [List.map_cons, readAll, readAll, read_bare]
      cases s.read i with
      | error e => rfl
      | ok s' => exact ih s'

theorem finish_bare (s : Nesting) :
    s.bare.finish = s.finish.map (Body.relabel .bare) := by
  obtain ⟨current, opened⟩ := s
  cases opened with
  | nil => exact congrArg Except.ok (Body.ofReversed_map_bare current)
  | cons o outer => simp [finish, bare, OpenLoop.bare, Except.map]

end Nesting

/-- **Nesting looks at no offset.** -/
theorem ofInstructions_bare (xs : List Instruction) :
    Program.ofInstructions (xs.map Instruction.bare) =
      (Program.ofInstructions xs).map Program.bare := by
  have hread := Nesting.readAll_bare {} xs
  rw [Program.ofInstructions, Program.ofInstructions]
  have hstart : ({} : Nesting).bare = {} := rfl
  rw [hstart] at hread
  rw [hread]
  cases ({} : Nesting).readAll xs with
  | error e => rfl
  | ok s =>
      simp only [Except.map, Nesting.finish_bare, List.length_map]
      cases s.finish <;> rfl

/-- The program of a text, without places in the text. -/
theorem parse_map_bare (source : String) :
    (parse source).value.map Program.bare =
      (Program.ofInstructions ((lex source).map Instruction.bare)).mapError Imbalance.fault := by
  rw [parse_value, nestLogged_value, ofInstructions_bare]
  cases Program.ofInstructions (lex source) <;> rfl

/-- **Texts with the same commands nest alike**: into the same fault, or into trees that differ in
offsets alone. -/
theorem parse_bare_eq {a b : String} (h : commandsOf a = commandsOf b) :
    (parse a).value.map Program.bare = (parse b).value.map Program.bare := by
  rw [parse_map_bare, parse_map_bare, map_bare_lex, map_bare_lex, h]

end TapeLang
