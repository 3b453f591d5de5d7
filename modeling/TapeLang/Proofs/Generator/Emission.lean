import TapeLang.Proofs.Generator.Annotation
import TapeLang.Proofs.Machine.Structured

/-!
# Writing with a stack and writing by recursion

The generator walks through a tree with two stacks: one of the bodies it has yet to return to, and
one of the numbers of the loops it is inside. The foot of a loop is written when its body is used
up, from the number on top of the stack. `Body.emission` needs no stack. It is recursion on the tree
that hands the next free number on from left to right, as a state.

The main statement is `walk_writes_the_emission`: both write the same lines and leave the same next
number. Because the numbers are handed on, the `k`-th loop that the walk meets has the `k`-th
number (`Body.loopStands_code`), and trees in a row are written one after the other
(`Body.emission_append`).
-/

set_option autoImplicit false

namespace TapeLang

open Assembly

variable {config : TapeConfig} {annotate : Bool}

/-! ## Writing by recursion -/

namespace Body

/-- The lines of a tree and the next free number after it, if `n` is the next free number before
it. -/
def emission (config : TapeConfig) (annotate : Bool) : Body → Nat → Listing × Nat
  | nil, n => ([], n)
  | instr i rest, n =>
      let after := rest.emission config annotate n
      (remark annotate (.instruction i.command i.index) ++ i.lines config ++ after.1, after.2)
  | loop inner openIndex closeIndex rest, n =>
      let within := inner.emission config annotate (n + 1)
      let after := rest.emission config annotate within.2
      (remark annotate (.loop openIndex closeIndex) ++ loopHead n ++ within.1 ++ loopFoot n ++
        after.1, after.2)

/-- **Handing the numbers on is counting the loops.** -/
theorem emission_eq (b : Body) (n : Nat) :
    b.emission config annotate n = (b.code config annotate n, n + b.loops) := by
  induction b generalizing n with
  | nil => rfl
  | instr i rest ih => simp only [emission, ih, code, loops, List.append_assoc]
  | loop inner openIndex closeIndex rest ihInner ihRest =>
      have hnext : n + 1 + inner.loops = n + (inner.loops + 1) := by omega
      simp only [emission, ihInner, ihRest, code, loops, List.append_assoc, hnext, Nat.add_assoc]

/-- Trees in a row are written one after the other. -/
theorem emission_append (a b : Body) (n : Nat) :
    (a ++ b).emission config annotate n =
      ((a.emission config annotate n).1 ++
          (b.emission config annotate (a.emission config annotate n).2).1,
        (b.emission config annotate (a.emission config annotate n).2).2) := by
  induction a generalizing n with
  | nil => rfl
  | instr i rest ih =>
      rw [instr_append, emission, emission, ih]
      simp only [List.append_assoc]
  | loop inner openIndex closeIndex rest _ ih =>
      rw [loop_append, emission, emission, ih]
      simp only [List.append_assoc]

theorem tour_append (a b : Body) (depth : Nat) :
    (a ++ b).tour depth = a.tour depth ++ b.tour depth := by
  induction a with
  | nil => rfl
  | instr i rest ih => rw [instr_append, tour, tour, ih, List.cons_append]
  | loop inner openIndex closeIndex rest _ ih =>
      rw [loop_append, tour, tour, ih, List.cons_append, List.append_assoc, List.cons_append]

end Body

/-! ## Writing with a stack -/

/-- **A walk writes what recursion writes**, behind what is on the page already. The numbers of the
loops around the tree are still there afterwards. -/
theorem Page.writeAll_visits {b : Body} (hb : b.DelimiterFree) (p : Page) :
    writeAll config annotate b.visits p =
      ({ lines := p.lines ++ (b.emission config annotate p.loops).1
         loops := (b.emission config annotate p.loops).2
         opened := p.opened }, none) := by
  have hwalk := writeAll_tour config annotate hb 0 [] p
  rw [List.append_nil, ← Body.visits_eq_tour] at hwalk
  rw [hwalk, Body.emission_eq]
  rfl

/-- A walk through two trees in a row goes on with the second where it ends with the first. -/
theorem Page.writeAll_visits_append {a : Body} (ha : a.DelimiterFree) (b : Body) (p : Page) :
    writeAll config annotate (a ++ b).visits p =
      writeAll config annotate b.visits (writeAll config annotate a.visits p).1 := by
  have hfirst := writeAll_tour config annotate ha 0 [] p
  rw [List.append_nil, writeAll] at hfirst
  rw [Body.visits_eq_tour, Body.visits_eq_tour, Body.visits_eq_tour, Body.tour_append,
    writeAll_tour config annotate ha, hfirst]

/-! ## The numbers of loops -/

/-- The numbers of the loops whose heads stand in some lines, in order. -/
def loopHeads (lines : Listing) : List Nat :=
  lines.filterMap fun
    | .label (.loop n) => some n
    | _ => none

theorem loopHeads_append (a b : Listing) : loopHeads (a ++ b) = loopHeads a ++ loopHeads b :=
  List.filterMap_append

theorem loopHeads_remark (c : Comment) : loopHeads (remark annotate c) = [] := by
  cases annotate <;> rfl

/-- The code of an instruction has no label. -/
theorem loopHeads_lines (i : Instruction) : loopHeads (i.lines config) = [] := by
  apply List.filterMap_eq_nil_iff.2
  intro line hline
  have hoperation := List.all_eq_true.1 (Native.all_isOperation_lines config i) line hline
  cases line with
  | code o => rfl
  | _ => cases hoperation

theorem loopHeads_loopHead (n : Nat) : loopHeads (loopHead n) = [n] := rfl

theorem loopHeads_loopFoot (n : Nat) : loopHeads (loopFoot n) = [] := rfl

/-- **The loops of a tree are numbered in the order of their heads.** -/
theorem Body.loopHeads_code (b : Body) (n : Nat) :
    loopHeads (b.code config annotate n) = List.range' n b.loops := by
  induction b generalizing n with
  | nil => rfl
  | instr i rest ih =>
      rw [code, loopHeads_append, loopHeads_append, loopHeads_remark, loopHeads_lines, ih]
      rfl
  | loop inner openIndex closeIndex rest ihInner ihRest =>
      have hnext : n + (inner.loops + 1) = n + 1 + inner.loops := by omega
      have hloops : inner.loops + 1 + rest.loops = inner.loops + rest.loops + 1 := by omega
      rw [code, loopHeads_append, loopHeads_append, loopHeads_append, loopHeads_append,
        loopHeads_remark, loopHeads_loopHead, loopHeads_loopFoot, ihInner, ihRest, loops, hloops,
        List.range'_succ, hnext, ← List.range'_append_1]
      rfl

/-- The code of a tree stands in some lines with the number `n + k` for its first loop, and in front
of it stand the heads of the `k` loops with the numbers from `n` on. -/
def LoopStands (config : TapeConfig) (annotate : Bool) (n k : Nat) (b : Body) (lines : Listing) :
    Prop :=
  ∃ front back, lines = front ++ b.code config annotate (n + k) ++ back ∧
    loopHeads front = List.range' n k

namespace LoopStands

variable {n k : Nat} {b : Body} {lines : Listing}

/-- Lines in front add the heads that they hold. -/
theorem behind {j : Nat} {more : Listing} (hmore : loopHeads more = List.range' n j)
    (h : LoopStands config annotate (n + j) k b lines) :
    LoopStands config annotate n (j + k) b (more ++ lines) := by
  obtain ⟨front, back, rfl, hfront⟩ := h
  refine ⟨more ++ front, back, ?_, ?_⟩
  · rw [← Nat.add_assoc]
    simp only [List.append_assoc]
  · rw [loopHeads_append, hmore, hfront, List.range'_append_1]

theorem inFront (h : LoopStands config annotate n k b lines) (more : Listing) :
    LoopStands config annotate n k b (lines ++ more) := by
  obtain ⟨front, back, rfl, hfront⟩ := h
  exact ⟨front, back ++ more, by simp only [List.append_assoc], hfront⟩

end LoopStands

/-- The loops among the nodes of a body inside `depth` loops, in the order of the walk. -/
def Body.loopsFrom (depth : Nat) (b : Body) : List (Nat × Node) :=
  (b.nodesFrom depth).filter fun node => node.2.isLoop

theorem Body.length_loopsFrom (b : Body) (depth : Nat) : (b.loopsFrom depth).length = b.loops := by
  rw [loopsFrom, ← List.countP_eq_length_filter, countP_isLoop_nodesFrom]

/-- **The `k`-th loop that the walk meets has the `k`-th number.** -/
theorem Body.loopStands_code (b : Body) {depth d : Nat} (n : Nat) {k : Nat} {inner : Body}
    {openIndex closeIndex : Int}
    (h : (b.loopsFrom depth)[k]? = some (d, .loop inner openIndex closeIndex)) :
    LoopStands config annotate n k (.loop inner openIndex closeIndex .nil)
      (b.code config annotate n) := by
  induction b generalizing depth n k with
  | nil => cases h
  | instr i rest ih =>
      rw [loopsFrom, nodesFrom_instr, List.filter_cons_of_neg (by simp [Node.isLoop])] at h
      -- an instruction takes no number
      have hfront : loopHeads (remark annotate (.instruction i.command i.index) ++ i.lines config) =
          List.range' n 0 := by
        rw [loopHeads_append, loopHeads_remark, loopHeads_lines]
        rfl
      rw [code, ← List.append_assoc, ← Nat.zero_add k]
      exact .behind hfront (ih n h)
  | loop within first last rest ihWithin ihRest =>
      rw [loopsFrom, nodesFrom_loop, List.filter_cons_of_pos rfl, List.filter_append] at h
      cases k with
      | zero =>
          -- the loop itself, which takes the first number
          obtain ⟨-, rfl, rfl, rfl⟩ : depth = d ∧ within = inner ∧ first = openIndex ∧
              last = closeIndex := by simpa using h
          refine ⟨[], rest.code config annotate (n + (within.loops + 1)), ?_, rfl⟩
          simp only [code, List.nil_append, List.append_assoc, Nat.add_zero]
      | succ k =>
          rw [List.getElem?_cons_succ, List.getElem?_append] at h
          have hlength : ((within.nodesFrom (depth + 1)).filter fun node => node.2.isLoop).length =
              within.loops := within.length_loopsFrom (depth + 1)
          rw [hlength] at h
          split at h
          · -- a loop of the contents, behind the head of the loop
            have hfront : loopHeads (remark annotate (.loop first last) ++ loopHead n) =
                List.range' n 1 := by
              rw [loopHeads_append, loopHeads_remark, loopHeads_loopHead]
              rfl
            rw [code, ← List.append_assoc, Nat.add_comm k 1]
            exact .behind hfront (.inFront (ihWithin (n + 1) h) _)
          · -- a loop of what comes after, behind all the loops of the contents
            next hk =>
            have hfront : loopHeads (remark annotate (.loop first last) ++ loopHead n ++
                within.code config annotate (n + 1) ++ loopFoot n) =
                  List.range' n (within.loops + 1) := by
              rw [loopHeads_append, loopHeads_append, loopHeads_append, loopHeads_remark,
                loopHeads_loopHead, loopHeads_loopFoot, loopHeads_code, List.range'_succ]
              simp
            have hplace : k + 1 = within.loops + 1 + (k - within.loops) := by omega
            have hstands := LoopStands.behind hfront (ihRest (n + (within.loops + 1)) h)
            rw [hplace]
            simpa only [code, List.append_assoc] using hstands

/-! ## The emission of a tree -/

/-- How the lines around the contents of a loop are spelled. -/
theorem texts_of_loop (n : Nat) :
    (loopHead n).map Line.text =
        ["loop_" ++ toString n ++ ":", "    cmp byte [rbx + r12], 0",
          "    je loop_" ++ toString n ++ "_end"] ∧
      (loopFoot n).map Line.text =
        ["    jmp loop_" ++ toString n, "loop_" ++ toString n ++ "_end:"] := by
  -- a jump is a mnemonic in front of a name
  have hjump : ∀ (j : Jump) (name : String),
      "    " ++ (j.text ++ " " ++ ("loop_" ++ name)) = "    " ++ j.text ++ " loop_" ++ name := by
    intro j name
    apply String.toList_injective
    simp
  constructor
  · simp only [loopHead, List.map_cons, List.map_nil, List.cons.injEq, and_true]
    refine ⟨rfl, rfl, ?_⟩
    have hend : "loop_" ++ toString n ++ "_end" = "loop_" ++ (toString n ++ "_end") :=
      String.append_assoc
    show "    " ++ (Jump.text .equal ++ " " ++ ("loop_" ++ toString n ++ "_end")) = _
    rw [hend, hjump, ← String.append_assoc]
    rfl
  · simp only [loopFoot, List.map_cons, List.map_nil, List.cons.injEq, and_true]
    refine ⟨hjump .always (toString n), ?_⟩
    show "loop_" ++ toString n ++ "_end" ++ ":" = _
    rw [String.append_assoc]
    rfl

/-- **A walk with a stack writes what recursion on the tree writes.** Let a tree have no delimiters
among its instructions, however deep its loops are nested, and let there be a page with any lines,
any next free number `n` and any loops around the tree. The walk puts the lines of the emission
behind those on the page and leaves the next free number of the emission; it stops nowhere. The
`k`-th loop among the nodes of the tree is written as a tree of its own that begins with the number
`n + k`, and the heads in front of it are those of the numbers from `n` on. The next free number has
grown by the number of loops. Trees in a row are written one after the other, the second with the
number that the first one leaves. The number of a loop is what its two labels are spelled with. -/
theorem walk_writes_the_emission (config : TapeConfig) (annotate : Bool) (b : Body)
    (hb : b.DelimiterFree) (p : Page) :
    let emitted := b.emission config annotate p.loops
    Page.writeAll config annotate b.visits p =
        (⟨p.lines ++ emitted.1, emitted.2, p.opened⟩, none) ∧
      (∀ k depth inner openIndex closeIndex,
        (({ body := b } : Program).nodes.filter fun node => node.2.isLoop)[k]? =
            some (depth, .loop inner openIndex closeIndex) →
          ∃ front back,
            emitted.1 = front ++ ((Body.loop inner openIndex closeIndex .nil).emission config
                annotate (p.loops + k)).1 ++ back ∧
              loopHeads front = List.range' p.loops k) ∧
      emitted.2 = p.loops + ({ body := b } : Program).loopCount ∧
      (∀ b' : Body, b'.DelimiterFree →
        let emitted' := b'.emission config annotate emitted.2
        (b ++ b').emission config annotate p.loops = (emitted.1 ++ emitted'.1, emitted'.2) ∧
          Page.writeAll config annotate (b ++ b').visits p =
            (⟨p.lines ++ emitted.1 ++ emitted'.1, emitted'.2, p.opened⟩, none)) ∧
      ∀ n : Nat,
        (loopHead n).map Line.text =
            ["loop_" ++ toString n ++ ":", "    cmp byte [rbx + r12], 0",
              "    je loop_" ++ toString n ++ "_end"] ∧
          (loopFoot n).map Line.text =
            ["    jmp loop_" ++ toString n, "loop_" ++ toString n ++ "_end:"] := by
  intro emitted
  have hemitted : emitted = (b.code config annotate p.loops, p.loops + b.loops) := b.emission_eq _
  have hwalk : Page.writeAll config annotate b.visits p =
      (⟨p.lines ++ emitted.1, emitted.2, p.opened⟩, none) := Page.writeAll_visits hb p
  refine ⟨hwalk, ?_, ?_, ?_, texts_of_loop⟩
  · intro k depth inner openIndex closeIndex hk
    rw [Program.nodes_eq] at hk
    obtain ⟨front, back, hlines, hfront⟩ := Body.loopStands_code b p.loops hk
    refine ⟨front, back, ?_, hfront⟩
    rw [hemitted, Body.emission_eq]
    exact hlines
  · rw [hemitted, Program.loopCount_eq_loops]
  · intro b' hb' emitted'
    refine ⟨b.emission_append b' p.loops, ?_⟩
    rw [Page.writeAll_visits_append hb, hwalk, Page.writeAll_visits hb']

/-- The tree of `+[-[.]][>]`: two loops, one inside the other, and a third one behind them. If seven
loops were written before, the third one has the number nine, behind the lines of the first three
instructions. -/
theorem emission_of_third_loop :
    let third : Body := .loop (.instr ⟨.moveRight, 8, 8⟩ .nil) 7 9 .nil
    let b : Body := .instr ⟨.increment, 0, 0⟩ (.loop (.instr ⟨.decrement, 2, 2⟩
      (.loop (.instr ⟨.output, 4, 4⟩ .nil) 3 5 .nil)) 1 6 third)
    let page := (Page.writeAll {} false b.visits { loops := 7 }).1
    b.DelimiterFree ∧ page.loops = 10 ∧
      ∃ front back, page.lines.toList = front ++ (third.emission {} false 9).1 ++ back ∧
        loopHeads front = [7, 8] := by
  intro third b page
  have hb : b.DelimiterFree := by decide
  obtain ⟨hwalk, hloops, hcount, -⟩ := walk_writes_the_emission {} false b hb { loops := 7 }
  have hpage : page = _ := congrArg Prod.fst hwalk
  obtain ⟨front, back, hlines, hfront⟩ :=
    hloops 2 0 (.instr ⟨.moveRight, 8, 8⟩ .nil) 7 9 (by rw [Program.nodes_eq]; rfl)
  refine ⟨hb, ?_, front, back, ?_, hfront⟩
  · rw [hpage]
    exact hcount.trans (by rw [Program.loopCount_eq_loops]; rfl)
  · rw [hpage, ← hlines]
    exact List.nil_append _

end TapeLang
