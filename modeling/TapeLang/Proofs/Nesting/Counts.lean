import TapeLang.Proofs.Generator.Scheme
import TapeLang.Proofs.Nesting.Balance

/-!
# Counting in the sequence and in the tree

The commands of a program can be counted in two places. In the sequence of its instructions, the
table `commandCounts` has an entry for each command that occurs. In the tree, loops are counted by a
walk (`Program.loopCount`). The table has all the instructions (`total_commandCounts`), and what it
says of opening delimiters is the number of loops (`loopCount_of_nestLogged`).
-/

set_option autoImplicit false

namespace TapeLang

/-! ## The table of commands -/

/-- How often a command occurs in a sequence of instructions. -/
def occurrences (xs : List Instruction) (c : Command) : Nat :=
  xs.countP fun i => i.command == c

/-- The entries of a table for some commands, without those that are zero. -/
def entries (count : Command → Nat) (cs : List Command) : List (Command × Nat) :=
  cs.filterMap fun c => if count c = 0 then none else some (c, count c)

theorem commandCounts_eq_entries (xs : List Instruction) :
    commandCounts xs = entries (occurrences xs) Command.all := by
  rw [commandCounts, entries]
  apply List.filterMap_congr
  intro c _
  show _ = if occurrences xs c = 0 then none else some (c, occurrences xs c)
  rw [occurrences]
  cases List.countP (fun i => i.command == c) xs <;> rfl

/-- The sum of the counts in a table. -/
def total (table : List (Command × Nat)) : Nat :=
  table.foldr (fun entry sum => entry.2 + sum) 0

/-- A table with an entry for each of some commands, also if it is zero. -/
def fullTable (count : Command → Nat) (cs : List Command) : List (Command × Nat) :=
  cs.map fun c => (c, count c)

/-- Entries that are zero add nothing. -/
theorem total_entries (count : Command → Nat) (cs : List Command) :
    total (entries count cs) = total (fullTable count cs) := by
  induction cs with
  | nil => rfl
  | cons c cs ih =>
      rw [entries, fullTable] at ih ⊢
      by_cases hc : count c = 0
      · rw [List.filterMap_cons_none (by simp [hc]), ih]
        simp [total, hc]
      · rw [List.filterMap_cons_some (b := (c, count c)) (by simp [hc]), List.map_cons, total,
          total, List.foldr_cons, List.foldr_cons]
        exact congrArg (count c + ·) ih

theorem total_add (f g : Command → Nat) (cs : List Command) :
    total (fullTable (fun c => f c + g c) cs) =
      total (fullTable f cs) + total (fullTable g cs) := by
  induction cs with
  | nil => rfl
  | cons c cs ih =>
      simp only [total, fullTable, List.map_cons, List.foldr_cons] at ih ⊢
      omega

/-- A command that has no entry does not occur. -/
theorem lookup_entries (count : Command → Nat) (cs : List Command) (c : Command) :
    ((entries count cs).lookup c).getD 0 = if c ∈ cs then count c else 0 := by
  induction cs with
  | nil => rfl
  | cons d cs ih =>
      rw [entries] at ih ⊢
      by_cases hd : count d = 0
      · rw [List.filterMap_cons_none (by simp [hd]), ih]
        by_cases hcd : c = d
        · subst hcd
          simp [hd]
        · simp [hcd]
      · rw [List.filterMap_cons_some (b := (d, count d)) (by simp [hd]), List.lookup_cons]
        by_cases hcd : c = d
        · simp [hcd]
        · have hne : (c == d) = false := beq_eq_false_iff_ne.2 hcd
          simp only [hne, ih, List.mem_cons, hcd, false_or]

/-- Every instruction has exactly one of the commands. -/
theorem total_occurrences (xs : List Instruction) :
    total (fullTable (occurrences xs) Command.all) = xs.length := by
  induction xs with
  | nil => rfl
  | cons i xs ih =>
      have hcons : occurrences (i :: xs) =
          fun c => occurrences xs c + if i.command = c then 1 else 0 := by
        funext c
        simp [occurrences, List.countP_cons]
      rw [hcons, total_add, ih, List.length_cons]
      congr 1
      cases i.command <;> rfl

/-- **The table of commands has all the instructions.** -/
theorem total_commandCounts (xs : List Instruction) : total (commandCounts xs) = xs.length := by
  rw [commandCounts_eq_entries, total_entries, total_occurrences]

theorem lookup_commandCounts (xs : List Instruction) (c : Command) :
    ((commandCounts xs).lookup c).getD 0 = occurrences xs c := by
  rw [commandCounts_eq_entries, lookup_entries]
  apply if_pos
  cases c <;> decide

/-! ## Loops -/

/-- Whether an event of a walk is the entry of a loop. -/
def Visit.isEnter : Visit → Bool
  | .enter .. => true
  | .instr .. | .leave _ => false

theorem Body.countP_isEnter_tour (b : Body) (depth : Nat) :
    (b.tour depth).countP Visit.isEnter = b.loops := by
  induction b generalizing depth with
  | nil => rfl
  | instr i rest ih => simp [tour, loops, Visit.isEnter, ih]
  | loop inner openIndex closeIndex rest ihInner ihRest =>
      simp only [tour, loops, List.countP_cons, List.countP_append, Visit.isEnter, ihInner, ihRest]
      simp only [if_true, Bool.false_eq_true, if_false]
      omega

/-- The walk counts the loops of the tree. -/
theorem Program.loopCount_eq_loops (p : Program) : p.loopCount = p.body.loops := by
  rw [loopCount, nodes_eq_filterMap_visits, Body.visits_eq_tour, List.countP_filterMap,
    ← Body.countP_isEnter_tour p.body 0]
  apply List.countP_congr
  intro v _
  cases v <;> simp [Visit.isEnter, Visit.node?]

/-- Every loop has one opening delimiter. -/
theorem Body.opens_flatten {b : Body} (hb : b.DelimiterFree) : opens b.flatten = b.loops := by
  induction b with
  | nil => rfl
  | instr i rest ih =>
      have hi : i.command.isDelimiter = false := hb.1
      have hcommand : (i.command == .loopOpen) = false := by
        cases hc : i.command <;> simp_all [Command.isDelimiter]
      rw [flatten, loops, ← ih hb.2, opens, List.countP_cons_of_neg (by simp [hcommand]), opens]
  | loop inner openIndex closeIndex rest ihInner ihRest =>
      rw [loops, ← ihInner hb.1, ← ihRest hb.2]
      simp [flatten, opens]
      omega

/-- **A program has as many loops as the table of its instructions says.** -/
theorem loopCount_of_nestLogged {xs : List Instruction} {p : Program}
    (h : (nestLogged xs).value = .ok p) :
    p.loopCount = ((commandCounts xs).lookup .loopOpen).getD 0 := by
  obtain ⟨hflat, -, hfree⟩ := flatten_of_nestLogged h
  have hkept : opens (xs.map Instruction.kept) = opens xs := by
    simp only [opens, List.countP_map, Function.comp_def, Instruction.command_kept]
  rw [p.loopCount_eq_loops, ← Body.opens_flatten hfree, hflat, hkept, lookup_commandCounts]
  rfl

end TapeLang
