import TapeLang.Body.Visit

/-!
# The walks by recursion

A walk through a tree keeps what it has yet to come to. Read by recursion on the tree it is simpler:
an instruction is one event, and a loop is its entry, the walk through its contents and its exit.
The walk that keeps bodies to return to meets these events (`Body.visits_eq_tour`). The walk that
keeps a stack of nodes meets the nodes among them, in the same order
(`Program.nodes_eq_filterMap_visits`).
-/

set_option autoImplicit false

namespace TapeLang

/-! ## Events -/

namespace Body

/-- The walk through a body inside `depth` loops. -/
def tour (depth : Nat) : Body → List Visit
  | nil => []
  | instr i rest => .instr depth i :: tour depth rest
  | loop inner openIndex closeIndex rest =>
      .enter depth inner openIndex closeIndex ::
        (tour (depth + 1) inner ++ .leave depth :: tour depth rest)

/-- The walk through the bodies that are still to be returned to, innermost first. -/
def tourOuter : List Body → List Visit
  | [] => []
  | next :: outer => .leave outer.length :: (tour outer.length next ++ tourOuter outer)

/-- A walk goes on with the rest of the innermost body, and then with the bodies around it. -/
theorem visitsFrom_eq (seen : Array Visit) (b : Body) (outer : List Body) :
    (visitsFrom seen outer.length b outer).toList =
      seen.toList ++ (tour outer.length b ++ tourOuter outer) := by
  generalize hd : outer.length = depth
  fun_induction visitsFrom seen depth b outer with
  | case1 seen depth => simp [tour, tourOuter]
  | case2 seen depth next outer ih =>
      simp only [List.length_cons] at hd
      subst hd
      rw [ih rfl]
      simp [tour, tourOuter]
  | case3 seen depth i rest outer ih =>
      rw [ih hd]
      simp [tour]
  | case4 seen depth inner openIndex closeIndex rest outer ih =>
      subst hd
      rw [ih rfl]
      simp [tour, tourOuter]

/-- The walk that keeps a stack is the walk by recursion. -/
theorem visits_eq_tour (b : Body) : b.visits = b.tour 0 := by
  have h := visitsFrom_eq #[] b []
  simpa [visits, tourOuter] using h

end Body

/-! ## Nodes -/

/-- The node that an event of a walk comes to, with the number of loops around it. The end of a loop
is no node. -/
def Visit.node? : Visit → Option (Nat × Node)
  | .instr depth i => some (depth, .instr i)
  | .enter depth inner openIndex closeIndex => some (depth, .loop inner openIndex closeIndex)
  | .leave _ => none

namespace Body

/-- The nodes of a body inside `depth` loops, in the order of the walk. -/
def nodesFrom (depth : Nat) (b : Body) : List (Nat × Node) :=
  (b.tour depth).filterMap Visit.node?

theorem nodesFrom_instr (depth : Nat) (i : Instruction) (rest : Body) :
    (instr i rest).nodesFrom depth = (depth, .instr i) :: rest.nodesFrom depth := rfl

theorem nodesFrom_loop (depth : Nat) (inner rest : Body) (openIndex closeIndex : Int) :
    (loop inner openIndex closeIndex rest).nodesFrom depth =
      (depth, .loop inner openIndex closeIndex) ::
        (inner.nodesFrom (depth + 1) ++ rest.nodesFrom depth) := by
  simp [nodesFrom, tour, Visit.node?, List.filterMap_cons]

end Body

namespace Node

/-- The nodes that a walk with a stack has yet to come to: those on the stack, each before what it
contains. -/
def pending : List (Nat × Node) → List (Nat × Node)
  | [] => []
  | (depth, instr i) :: stack => (depth, instr i) :: pending stack
  | (depth, loop inner openIndex closeIndex) :: stack =>
      (depth, loop inner openIndex closeIndex) :: (inner.nodesFrom (depth + 1) ++ pending stack)

/-- A body on the stack is walked through before what lies below it. -/
theorem pending_pushOnto (depth : Nat) (b : Body) (stack : List (Nat × Node)) :
    pending (b.pushOnto depth stack) = b.nodesFrom depth ++ pending stack := by
  induction b with
  | nil => rfl
  | instr i rest ih =>
      rw [Body.pushOnto_instr, pending, ih, Body.nodesFrom_instr]
      rfl
  | loop inner openIndex closeIndex rest _ ih =>
      rw [Body.pushOnto_loop, pending, ih, Body.nodesFrom_loop, List.cons_append, List.append_assoc]

/-- The walk lists what is pending, whatever it has listed before. -/
theorem toList_walkFrom (seen : Array (Nat × Node)) (stack : List (Nat × Node)) :
    (walkFrom seen stack).toList = seen.toList ++ pending stack := by
  fun_induction walkFrom seen stack with
  | case1 seen => exact (List.append_nil _).symm
  | case2 seen depth i stack ih =>
      rw [ih, Array.toList_push, List.append_assoc]
      rfl
  | case3 seen depth inner openIndex closeIndex stack ih =>
      -- what the loop contains was put on top of the stack
      rw [ih, Array.toList_push, List.append_assoc, pending_pushOnto]
      rfl

end Node

/-- The nodes of a program are those of its tree. -/
theorem Program.nodes_eq (p : Program) : p.nodes = p.body.nodesFrom 0 := by
  rw [nodes, Node.toList_walkFrom, Node.pending_pushOnto]
  exact List.append_nil _

/-- **The two walks meet the same nodes.** -/
theorem Program.nodes_eq_filterMap_visits (p : Program) :
    p.nodes = p.body.visits.filterMap Visit.node? := by
  rw [nodes_eq, Body.visits_eq_tour]
  rfl

end TapeLang
