import TapeLang.Proofs.Nesting.Counts

/-!
# Statistics of a tree

A walk through a tree yields its nodes, each with the number of loops around it, and from these the
statistics of a program are taken: how many primitives and loops it has, and how deep the loops are
nested. The sequence of instructions that the program was read from knows all of this without a
tree. What is around an instruction are the loops that were opened before it and not closed again,
so a depth is a difference of two counts over a prefix (`depthAfter`).

The main statement is `statistics_are_counts`. It rests on two facts about flattened trees, both by
induction on the tree: walking a tree yields the primitives of its flat form with the differences
before them (`Body.placed_nodesFrom`), and the height of a tree is the greatest difference after a
prefix of its flat form (`Body.depthAfter_le_height`, `Body.exists_depthAfter_eq_height`).
-/

set_option autoImplicit false

namespace TapeLang

/-! ## Differences of counts -/

/-- The number of opening delimiters of a sequence less the number of closing ones. -/
def depthAfter (xs : List Instruction) : Int :=
  (opens xs : Int) - (closes xs : Int)

@[simp] theorem depthAfter_nil : depthAfter [] = 0 := rfl

@[simp] theorem depthAfter_append (xs ys : List Instruction) :
    depthAfter (xs ++ ys) = depthAfter xs + depthAfter ys := by
  simp only [depthAfter, opens_append, closes_append]
  omega

/-- What an instruction in front adds to the difference. -/
theorem depthAfter_open {i : Instruction} (hi : i.command = .loopOpen) (xs : List Instruction) :
    depthAfter (i :: xs) = depthAfter xs + 1 := by
  simp only [depthAfter, opens, closes, List.countP_cons, hi]
  simp
  omega

theorem depthAfter_close {i : Instruction} (hi : i.command = .loopClose) (xs : List Instruction) :
    depthAfter (i :: xs) = depthAfter xs - 1 := by
  simp only [depthAfter, opens, closes, List.countP_cons, hi]
  simp
  omega

theorem depthAfter_primitive {i : Instruction} (hi : i.command.isDelimiter = false)
    (xs : List Instruction) : depthAfter (i :: xs) = depthAfter xs := by
  rcases counts_cons i xs with ⟨hopen, -⟩ | ⟨hclose, -⟩ | ⟨-, ho, hc⟩
  · rw [hopen] at hi
    cases hi
  · rw [hclose] at hi
    cases hi
  · rw [depthAfter, ho, hc, depthAfter]

/-- The primitives of a sequence, each with the difference of the counts before it; `before` is what
comes before the sequence. -/
def primitivesAfter (before : List Instruction) : List Instruction → List (Int × Instruction)
  | [] => []
  | i :: rest =>
      if i.command.isDelimiter then primitivesAfter (before ++ [i]) rest
      else (depthAfter before, i) :: primitivesAfter (before ++ [i]) rest

theorem primitivesAfter_delimiter (before : List Instruction) {i : Instruction}
    (hi : i.command.isDelimiter = true) (rest : List Instruction) :
    primitivesAfter before (i :: rest) = primitivesAfter (before ++ [i]) rest := by
  rw [primitivesAfter, if_pos hi]

theorem primitivesAfter_primitive (before : List Instruction) {i : Instruction}
    (hi : i.command.isDelimiter = false) (rest : List Instruction) :
    primitivesAfter before (i :: rest) =
      (depthAfter before, i) :: primitivesAfter (before ++ [i]) rest := by
  rw [primitivesAfter, hi, if_neg (by decide)]

theorem primitivesAfter_append (before xs ys : List Instruction) :
    primitivesAfter before (xs ++ ys) =
      primitivesAfter before xs ++ primitivesAfter (before ++ xs) ys := by
  induction xs generalizing before with
  | nil => simp [primitivesAfter]
  | cons i xs ih =>
      rw [List.cons_append, primitivesAfter, primitivesAfter, ih]
      split <;> simp

/-- Without the differences, what is left are the primitives. -/
theorem map_snd_primitivesAfter (before xs : List Instruction) :
    (primitivesAfter before xs).map Prod.snd = xs.filter fun i => !i.command.isDelimiter := by
  induction xs generalizing before with
  | nil => rfl
  | cons i xs ih =>
      rw [primitivesAfter, List.filter_cons]
      cases hi : i.command.isDelimiter <;> simp [ih]

/-! ## What a tree keeps of its sequence -/

theorem depthAfter_map_kept (xs : List Instruction) :
    depthAfter (xs.map Instruction.kept) = depthAfter xs := by
  simp only [depthAfter, opens, closes, List.countP_map, Function.comp_def,
    Instruction.command_kept]

/-- The offsets that a tree forgets are those of delimiters, which are not yielded. -/
theorem primitivesAfter_map_kept (before xs : List Instruction) :
    primitivesAfter (before.map Instruction.kept) (xs.map Instruction.kept) =
      primitivesAfter before xs := by
  induction xs generalizing before with
  | nil => rfl
  | cons i xs ih =>
      have hrest := ih (before ++ [i])
      rw [List.map_append, List.map_singleton] at hrest
      rw [List.map_cons, primitivesAfter, primitivesAfter, hrest, depthAfter_map_kept,
        Instruction.command_kept]
      cases hi : i.command.isDelimiter with
      | true => rfl
      | false => simp [Instruction.kept, hi]

/-- Prefixes of what a tree keeps are what it keeps of prefixes. -/
theorem exists_map_kept_eq {xs ys : List Instruction}
    (h : ys <+: xs.map Instruction.kept) : ∃ zs, zs <+: xs ∧ ys = zs.map Instruction.kept := by
  refine ⟨xs.take ys.length, List.take_prefix .., ?_⟩
  rw [List.map_take]
  exact List.prefix_iff_eq_take.1 h

/-! ## The nodes of a walk -/

/-- Every node is a primitive or a loop. -/
theorem Program.length_nodes (p : Program) : p.nodes.length = p.primitiveCount + p.loopCount := by
  rw [primitiveCount, loopCount]
  induction p.nodes with
  | nil => rfl
  | cons node nodes ih =>
      obtain ⟨depth, n⟩ := node
      rw [List.length_cons, ih, List.countP_cons, List.countP_cons]
      cases n with
      | instr i =>
          simp only [if_true, Bool.false_eq_true, if_false]
          omega
      | loop inner openIndex closeIndex =>
          simp only [if_true, Bool.false_eq_true, if_false]
          omega

/-- The instruction at a node, with the number of loops around it. -/
def Node.placed? : Nat × Node → Option (Nat × Instruction)
  | (depth, .instr i) => some (depth, i)
  | (_, .loop ..) => none

/-- The instructions among the nodes of a program, each with the number of loops around it. -/
def Program.placed (p : Program) : List (Nat × Instruction) :=
  p.nodes.filterMap Node.placed?

/-- The number of primitives is the number of instructions that the walk yields. -/
theorem Program.primitiveCount_eq (p : Program) : p.primitiveCount = p.placed.length := by
  rw [primitiveCount, placed, List.length_filterMap_eq_countP]
  apply List.countP_congr
  intro node _
  obtain ⟨depth, n⟩ := node
  cases n <;> simp [Node.placed?]

namespace Body

/-! ## Walking a tree -/

/-- A flattened tree closes what it opens. -/
theorem depthAfter_flatten {b : Body} (hb : b.DelimiterFree) : depthAfter b.flatten = 0 := by
  induction b with
  | nil => rfl
  | instr i rest ih =>
      obtain ⟨hi, hrest⟩ := hb
      rw [flatten, depthAfter_primitive hi, ih hrest]
  | loop inner openIndex closeIndex rest ihInner ihRest =>
      obtain ⟨hinner, hrest⟩ := hb
      rw [flatten, depthAfter_open rfl, depthAfter_append, depthAfter_close rfl, ihInner hinner,
        ihRest hrest]
      rfl

/-- **A walk yields the primitives of the flat form**, each with the difference of the counts before
it as the number of loops around it. -/
theorem placed_nodesFrom {b : Body} (hb : b.DelimiterFree) (depth : Nat) {before : List Instruction}
    (hbefore : depthAfter before = depth) :
    primitivesAfter before b.flatten =
      ((b.nodesFrom depth).filterMap Node.placed?).map
        fun placed => ((placed.1 : Int), placed.2) := by
  induction b generalizing depth before with
  | nil => rfl
  | instr i rest ih =>
      obtain ⟨hi, hrest⟩ := hb
      have hnext : depthAfter (before ++ [i]) = depth := by
        rw [depthAfter_append, depthAfter_primitive hi, depthAfter_nil, hbefore]
        omega
      rw [flatten, primitivesAfter_primitive before hi, ih hrest depth hnext, hbefore]
      rfl
  | loop inner openIndex closeIndex rest ihInner ihRest =>
      obtain ⟨hinner, hrest⟩ := hb
      -- inside the loop one more delimiter has been opened, and behind it the two cancel out
      have hinside : depthAfter (before ++ [⟨.loopOpen, openIndex, 0⟩]) = (depth + 1 : Nat) := by
        rw [depthAfter_append, depthAfter_open rfl, depthAfter_nil, hbefore]
        omega
      have hbehind : depthAfter (before ++ [⟨.loopOpen, openIndex, 0⟩] ++ inner.flatten ++
          [⟨.loopClose, closeIndex, 0⟩]) = depth := by
        rw [depthAfter_append, depthAfter_append, hinside, depthAfter_flatten hinner,
          depthAfter_close rfl, depthAfter_nil]
        omega
      rw [flatten, primitivesAfter_delimiter before rfl, primitivesAfter_append,
        ihInner hinner (depth + 1) hinside, primitivesAfter_delimiter _ rfl,
        ihRest hrest depth hbehind, ← List.map_append, ← List.filterMap_append, nodesFrom_loop]
      rfl

/-! ## Height -/

/-- The greatest number of loops around each other. -/
def height : Body → Nat
  | nil => 0
  | instr _ rest => rest.height
  | loop inner _ _ rest => max (inner.height + 1) rest.height

/-- No prefix opens more loops than the tree is high. -/
theorem depthAfter_le_height {b : Body} (hb : b.DelimiterFree) {ys : List Instruction}
    (h : ys <+: b.flatten) : depthAfter ys ≤ b.height := by
  induction b generalizing ys with
  | nil =>
      rw [List.prefix_nil.1 h]
      exact Int.le_refl 0
  | instr i rest ih =>
      obtain ⟨hi, hrest⟩ := hb
      rcases List.prefix_cons_iff.1 h with rfl | ⟨zs, rfl, hzs⟩
      · exact Int.natCast_nonneg _
      · rw [depthAfter_primitive hi]
        exact ih hrest hzs
  | loop inner openIndex closeIndex rest ihInner ihRest =>
      obtain ⟨hinner, hrest⟩ := hb
      have hleft : inner.height + 1 ≤ (loop inner openIndex closeIndex rest).height :=
        Nat.le_max_left ..
      have hright : rest.height ≤ (loop inner openIndex closeIndex rest).height :=
        Nat.le_max_right ..
      rcases List.prefix_cons_iff.1 h with rfl | ⟨zs, rfl, hzs⟩
      · exact Int.natCast_nonneg _
      · rw [depthAfter_open rfl]
        -- the prefix ends inside the loop, right in front of its end, or behind it
        rcases prefix_split hzs with hzs | ⟨qs, rfl, hqs⟩
        · have hinside := ihInner hinner hzs
          omega
        · rw [depthAfter_append, depthAfter_flatten hinner]
          rcases List.prefix_cons_iff.1 hqs with rfl | ⟨rs, rfl, hrs⟩
          · rw [depthAfter_nil]
            omega
          · have hbehind := ihRest hrest hrs
            rw [depthAfter_close rfl]
            omega

/-- Some prefix opens as many loops as the tree is high. -/
theorem exists_depthAfter_eq_height {b : Body} (hb : b.DelimiterFree) :
    ∃ ys, ys <+: b.flatten ∧ depthAfter ys = b.height := by
  induction b with
  | nil => exact ⟨[], List.prefix_refl [], rfl⟩
  | instr i rest ih =>
      obtain ⟨hi, hrest⟩ := hb
      obtain ⟨ys, hys, hheight⟩ := ih hrest
      refine ⟨i :: ys, List.cons_prefix_cons.2 ⟨rfl, hys⟩, ?_⟩
      rw [depthAfter_primitive hi, hheight]
      rfl
  | loop inner openIndex closeIndex rest ihInner ihRest =>
      obtain ⟨hinner, hrest⟩ := hb
      -- the prefix ends in the higher of the two parts
      by_cases hhigher : rest.height ≤ inner.height + 1
      · obtain ⟨ys, hys, hheight⟩ := ihInner hinner
        refine ⟨⟨.loopOpen, openIndex, 0⟩ :: ys,
          List.cons_prefix_cons.2 ⟨rfl, hys.trans (List.prefix_append ..)⟩, ?_⟩
        rw [depthAfter_open rfl, hheight, height, Nat.max_eq_left hhigher]
        omega
      · obtain ⟨ys, hys, hheight⟩ := ihRest hrest
        refine ⟨⟨.loopOpen, openIndex, 0⟩ :: (inner.flatten ++ ⟨.loopClose, closeIndex, 0⟩ :: ys),
          List.cons_prefix_cons.2 ⟨rfl, ?_⟩, ?_⟩
        · apply (List.prefix_append_right_inj inner.flatten).2
          exact List.cons_prefix_cons.2 ⟨rfl, hys⟩
        · rw [depthAfter_open rfl, depthAfter_append, depthAfter_flatten hinner,
            depthAfter_close rfl, hheight, height, Nat.max_eq_right (by omega)]
          omega

/-- The deepest loop so far, after one more node. -/
def deeper (deepest : Nat) : Nat × Node → Nat
  | (_, .instr _) => deepest
  | (depth, .loop ..) => max deepest (depth + 1)

/-- The nodes of a tree inside `depth` loops reach as deep as the tree is high. -/
theorem foldl_deeper_nodesFrom (b : Body) {depth deepest : Nat} (h : depth ≤ deepest) :
    (b.nodesFrom depth).foldl deeper deepest = max deepest (depth + b.height) := by
  induction b generalizing depth deepest with
  | nil => exact (Nat.max_eq_left h).symm
  | instr i rest ih => exact ih h
  | loop inner openIndex closeIndex rest ihInner ihRest =>
      have hentered : depth + 1 ≤ max deepest (depth + 1) := Nat.le_max_right ..
      have hleft : depth ≤ max (max deepest (depth + 1)) (depth + 1 + inner.height) := by omega
      rw [nodesFrom_loop, List.foldl_cons, List.foldl_append, deeper, ihInner hentered,
        ihRest hleft, height]
      omega

end Body

/-- **The greatest depth of a program is the height of its tree.** -/
theorem Program.maxDepth_eq_height (p : Program) : p.maxDepth = p.body.height := by
  have hfold := p.body.foldl_deeper_nodesFrom (Nat.le_refl 0)
  rw [← p.nodes_eq, Nat.zero_add, Nat.max_eq_right (Nat.zero_le _)] at hfold
  rw [← hfold, maxDepth]
  congr 1
  funext deepest node
  obtain ⟨depth, n⟩ := node
  cases n <;> rfl

/-! ## Counts of delimiters -/

/-- What the table of commands says of the two delimiters. -/
theorem lookup_delimiters (xs : List Instruction) :
    ((commandCounts xs).lookup .loopOpen).getD 0 = opens xs ∧
      ((commandCounts xs).lookup .loopClose).getD 0 = closes xs :=
  ⟨lookup_commandCounts xs .loopOpen, lookup_commandCounts xs .loopClose⟩

/-- Every instruction is a primitive, an open or a close. -/
theorem length_eq_counts (xs : List Instruction) :
    xs.length = (xs.filter fun i => !i.command.isDelimiter).length + opens xs + closes xs := by
  induction xs with
  | nil => rfl
  | cons i xs ih =>
      rw [List.length_cons, List.filter_cons]
      rcases counts_cons i xs with ⟨hi, ho, hc⟩ | ⟨hi, ho, hc⟩ | ⟨hi, ho, hc⟩
      · rw [ho, hc, hi, if_neg (by decide)]
        omega
      · rw [ho, hc, hi, if_neg (by decide)]
        omega
      · rw [ho, hc, hi, if_pos (by decide), List.length_cons]
        omega

/-! ## The statistics of a program -/

/-- **The statistics of a tree are counts over the sequence it was read from.** The instructions
that the walk yields are the primitives of the sequence, in order, and their number is the count of
primitives. The count of loops is what the table of commands says of either delimiter. Primitives
and twice the loops are all the instructions. The depth of each yielded instruction is the number of
opening delimiters before it less the number of closing ones, and the greatest depth is the greatest
such difference after any prefix. -/
theorem statistics_are_counts (xs : List Instruction) (p : Program)
    (h : (nestLogged xs).value = .ok p) :
    p.placed.map Prod.snd = (xs.filter fun i => !i.command.isDelimiter) ∧
    p.primitiveCount = (xs.filter fun i => !i.command.isDelimiter).length ∧
    p.loopCount = ((commandCounts xs).lookup .loopOpen).getD 0 ∧
    p.loopCount = ((commandCounts xs).lookup .loopClose).getD 0 ∧
    ((p.primitiveCount + 2 * p.loopCount : Nat) : Int) = p.instructionCount ∧
    (p.placed.map fun placed => ((placed.1 : Int), placed.2)) = primitivesAfter [] xs ∧
    (∀ ys, ys <+: xs → depthAfter ys ≤ p.maxDepth) ∧
    ∃ ys, ys <+: xs ∧ depthAfter ys = p.maxDepth := by
  obtain ⟨hflat, hcount, hfree⟩ := flatten_of_nestLogged h
  have hplaced : (p.placed.map fun placed => ((placed.1 : Int), placed.2)) =
      primitivesAfter [] xs := by
    have htour := Body.placed_nodesFrom hfree 0 depthAfter_nil
    rw [← p.nodes_eq, hflat] at htour
    rw [Program.placed, ← htour]
    exact primitivesAfter_map_kept [] xs
  have hyielded : p.placed.map Prod.snd = (xs.filter fun i => !i.command.isDelimiter) := by
    rw [← map_snd_primitivesAfter [] xs, ← hplaced, List.map_map]
    rfl
  have hprimitives : p.primitiveCount = (xs.filter fun i => !i.command.isDelimiter).length := by
    rw [p.primitiveCount_eq, ← hyielded, List.length_map]
  -- the two delimiters occur equally often, because the whole ends outside of all loops
  obtain ⟨hopens, hcloses⟩ := lookup_delimiters xs
  have hloops : p.loopCount = opens xs := (loopCount_of_nestLogged h).trans hopens
  have hbalance : opens xs = closes xs := by
    have hzero := Body.depthAfter_flatten hfree
    rw [hflat, depthAfter_map_kept, depthAfter] at hzero
    omega
  refine ⟨hyielded, hprimitives, hloops.trans hopens.symm, ?_, ?_, hplaced, ?_, ?_⟩
  · rw [hcloses, hloops, hbalance]
  · rw [hcount, length_eq_counts xs, hprimitives, hloops]
    omega
  · intro ys hys
    have hle := Body.depthAfter_le_height hfree (hflat ▸ hys.map Instruction.kept)
    rwa [depthAfter_map_kept, ← p.maxDepth_eq_height] at hle
  · obtain ⟨ys, hys, hheight⟩ := Body.exists_depthAfter_eq_height hfree
    obtain ⟨zs, hzs, rfl⟩ := exists_map_kept_eq (hflat ▸ hys)
    rw [depthAfter_map_kept, ← p.maxDepth_eq_height] at hheight
    exact ⟨zs, hzs, hheight⟩

/-- Two loops, one inside the other, with primitives before and behind the inner one. -/
theorem statistics_of_inner_loop :
    ∃ p, (nestLogged (lex "+[>[-]<.]")).value = .ok p ∧ p.primitiveCount = 5 ∧ p.loopCount = 2 ∧
      (p.placed.map fun placed => ((placed.1 : Int), placed.2)) =
        [(0, ⟨.increment, 0, 0⟩), (1, ⟨.moveRight, 2, 2⟩), (2, ⟨.decrement, 4, 4⟩),
          (1, ⟨.moveLeft, 6, 6⟩), (1, ⟨.output, 7, 7⟩)] ∧
      ∃ ys, ys <+: lex "+[>[-]<.]" ∧ depthAfter ys = p.maxDepth := by
  have hp : (nestLogged (lex "+[>[-]<.]")).value = .ok _ := rfl
  obtain ⟨-, hprimitives, hloops, -, -, hplaced, -, hdeepest⟩ := statistics_are_counts _ _ hp
  exact ⟨_, hp, hprimitives, hloops, hplaced, hdeepest⟩

end TapeLang
