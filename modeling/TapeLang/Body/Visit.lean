import TapeLang.Body

/-!
# Walking a tree

A tree is walked in two ways, and neither uses recursion, so nesting may be arbitrarily deep.

`Body.visits` lists what a walk meets, in order: every instruction, and every loop twice, where it
is entered and where it is left. This walk keeps the bodies it has yet to return to. The outline and
the code generator read a tree by its visits.

`Program.nodes` lists the nodes alone, each before what it contains. This walk keeps a stack of
nodes: it takes one off the top and puts the contents of a loop in its place. The counts below read
a tree by its nodes.
-/

set_option autoImplicit false

namespace TapeLang

/-- One event of a walk; `depth` is the number of loops around it. -/
inductive Visit where
  | instr (depth : Nat) (i : Instruction)
  | enter (depth : Nat) (inner : Body) (openIndex closeIndex : Int)
  | leave (depth : Nat)
  deriving DecidableEq, Repr

namespace Body

/-- The weight of the bodies to return to. -/
def outerWeight : List Body → Nat
  | [] => 0
  | next :: outer => next.weight + 1 + outerWeight outer

/-- Continue a walk at a body inside `depth` loops, with the bodies to return to, innermost
first. -/
def visitsFrom (seen : Array Visit) (depth : Nat) : Body → List Body → Array Visit
  | nil, [] => seen
  | nil, next :: outer => visitsFrom (seen.push (.leave (depth - 1))) (depth - 1) next outer
  | instr i rest, outer => visitsFrom (seen.push (.instr depth i)) depth rest outer
  | loop inner openIndex closeIndex rest, outer =>
      visitsFrom (seen.push (.enter depth inner openIndex closeIndex)) (depth + 1) inner
        (rest :: outer)
termination_by b outer => b.weight + outerWeight outer
decreasing_by
  all_goals simp only [weight, outerWeight]
  all_goals omega

/-- The walk through a body from its first node to its last. -/
def visits (b : Body) : List Visit :=
  (visitsFrom #[] 0 b []).toList

end Body

/-! ## Nodes -/

/-- Put the nodes of a body on a stack, with the number of loops around them. The last one goes
first, so that the first one comes to lie on top. -/
def Body.pushOnto (depth : Nat) (b : Body) (stack : List (Nat × Node)) : List (Nat × Node) :=
  (b.ontoReversed []).foldl (fun stack n => (depth, n) :: stack) stack

section PushOnto

variable (depth : Nat) (stack : List (Nat × Node))

@[simp] theorem Body.pushOnto_nil : nil.pushOnto depth stack = stack := rfl

@[simp] theorem Body.pushOnto_instr (i : Instruction) (rest : Body) :
    (instr i rest).pushOnto depth stack = (depth, .instr i) :: rest.pushOnto depth stack := by
  rw [pushOnto, ontoReversed, ontoReversed_eq_append, List.foldl_append]
  rfl

@[simp] theorem Body.pushOnto_loop (inner : Body) (openIndex closeIndex : Int) (rest : Body) :
    (loop inner openIndex closeIndex rest).pushOnto depth stack =
      (depth, .loop inner openIndex closeIndex) :: rest.pushOnto depth stack := by
  rw [pushOnto, ontoReversed, ontoReversed_eq_append, List.foldl_append]
  rfl

end PushOnto

namespace Node

/-- The weight of a node in the body it stands in. -/
def weight : Node → Nat
  | instr _ => 1
  | loop inner _ _ => inner.weight + 2

/-- The weight of the nodes on a stack. -/
def stackWeight : List (Nat × Node) → Nat
  | [] => 0
  | (_, n) :: stack => n.weight + stackWeight stack

theorem stackWeight_pushOnto (depth : Nat) (b : Body) (stack : List (Nat × Node)) :
    stackWeight (b.pushOnto depth stack) = b.weight + stackWeight stack := by
  induction b with
  | nil => simp [Body.weight]
  | instr i rest ih =>
      rw [Body.pushOnto_instr, stackWeight, ih, weight, Body.weight]
      omega
  | loop inner openIndex closeIndex rest _ ih =>
      rw [Body.pushOnto_loop, stackWeight, ih, weight, Body.weight]
      omega

/-- Continue a walk with the nodes on a stack. -/
def walkFrom (seen : Array (Nat × Node)) : List (Nat × Node) → Array (Nat × Node)
  | [] => seen
  | (depth, instr i) :: stack => walkFrom (seen.push (depth, instr i)) stack
  | (depth, loop inner openIndex closeIndex) :: stack =>
      walkFrom (seen.push (depth, loop inner openIndex closeIndex))
        (inner.pushOnto (depth + 1) stack)
termination_by stack => stackWeight stack
decreasing_by
  · rw [stackWeight, weight]
    omega
  · rw [stackWeight_pushOnto, stackWeight, weight]
    omega

end Node

/-- Every node of a program with the number of loops around it, each loop before its contents. -/
def Program.nodes (p : Program) : List (Nat × Node) :=
  (Node.walkFrom #[] (p.body.pushOnto 0 [])).toList

/-! ## Counts -/

namespace Program

/-- The number of instructions in the tree. -/
def primitiveCount (p : Program) : Nat :=
  p.nodes.countP fun
    | (_, .instr _) => true
    | (_, .loop ..) => false

/-- The number of loops in the tree. -/
def loopCount (p : Program) : Nat :=
  p.nodes.countP fun
    | (_, .instr _) => false
    | (_, .loop ..) => true

/-- The deepest nesting of loops; zero without loops. -/
def maxDepth (p : Program) : Nat :=
  p.nodes.foldl (fun deepest (depth, n) =>
    match n with
    | .instr _ => deepest
    | .loop .. => max deepest (depth + 1)) 0

end Program

end TapeLang
