import TapeLang.Instruction

/-!
# Bodies

A program is a tree: a body is a sequence of nodes, and a node is either an instruction or a loop
with a body of its own. `Body` is that sequence, with one way to continue it for each kind of
node, so that recursion on a program is plain structural recursion. `Node` is what stands at one
place of a body.

Nothing keeps a delimiter instruction out of a body that is put together by hand. It counts as a
primitive there, and only execution and code generation refuse it.
-/

set_option autoImplicit false

namespace TapeLang

/-- The nodes of a program or of a loop, in order. -/
inductive Body where
  /-- No more nodes. -/
  | nil
  /-- An instruction, and the nodes after it. -/
  | instr (i : Instruction) (rest : Body)
  /-- A loop with the indices of its two delimiters, and the nodes after it. -/
  | loop (inner : Body) (openIndex closeIndex : Int) (rest : Body)
  deriving DecidableEq, Repr

/-- One place of a body. -/
inductive Node where
  | instr (i : Instruction)
  | loop (inner : Body) (openIndex closeIndex : Int)
  deriving DecidableEq, Repr

namespace Body

/-- A node in front of a body. -/
def cons : Node → Body → Body
  | .instr i, rest => .instr i rest
  | .loop inner openIndex closeIndex, rest => .loop inner openIndex closeIndex rest

/-- The body of a list of nodes whose last node comes first. -/
def ofReversed (nodes : List Node) : Body :=
  nodes.foldl (fun rest n => cons n rest) nil

/-- The nodes of a body in front of the nodes `before`, last first. -/
def ontoReversed (before : List Node) : Body → List Node
  | nil => before
  | instr i rest => rest.ontoReversed (.instr i :: before)
  | loop inner openIndex closeIndex rest =>
      rest.ontoReversed (.loop inner openIndex closeIndex :: before)

theorem ontoReversed_eq_append (before : List Node) (b : Body) :
    b.ontoReversed before = b.ontoReversed [] ++ before := by
  induction b generalizing before with
  | nil => rfl
  | instr i rest ih =>
      rw [ontoReversed, ih, ontoReversed, ih [.instr i], List.append_assoc]
      rfl
  | loop inner openIndex closeIndex rest _ ih =>
      rw [ontoReversed, ih, ontoReversed, ih [.loop inner openIndex closeIndex], List.append_assoc]
      rfl

/-- The number of nodes of a body, not counting those inside its loops, added to `n`. -/
def lengthFrom (n : Nat) : Body → Nat
  | nil => n
  | instr _ rest => lengthFrom (n + 1) rest
  | loop _ _ _ rest => lengthFrom (n + 1) rest

/-- The number of nodes of a body, not counting those inside its loops. -/
def length (b : Body) : Nat :=
  lengthFrom 0 b

/-- The number of nodes of a body at all depths, loops counted twice: once where they are entered
and once where they are left. -/
def weight : Body → Nat
  | nil => 0
  | instr _ rest => rest.weight + 1
  | loop inner _ _ rest => inner.weight + rest.weight + 2

end Body

/-- A program: its tree, and the number of instructions it was read from. -/
structure Program where
  body : Body := .nil
  instructionCount : Int := 0
  deriving DecidableEq, Repr

end TapeLang
