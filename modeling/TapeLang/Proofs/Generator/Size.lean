import TapeLang.Proofs.Generator.Text
import TapeLang.Proofs.Toolchain.EntryPoints

/-!
# The size of a listing

Every command has a fixed number of lines in a listing, which depends on the tape but not on where
the command stands (`Command.cost`). The code of a tree is as long as the commands of its flat form
cost together (`Body.length_code`); an opening delimiter pays for both parts of a loop's code. A sum
over the instructions is a sum over the table of commands (`weighted_commandCounts`).

No line has a newline of its own, so the pipeline, which counts newlines, counts lines
(`newlines_text`). The main statement is `size_is_linear_in_counts`.
-/

set_option autoImplicit false

namespace TapeLang

open Assembly

/-! ## What a command costs -/

namespace Command

/-- The number of lines in the code of a command. An opening delimiter counts the head and the foot
of the loop, and a closing one nothing. -/
def size (config : TapeConfig) : Command → Nat
  | moveLeft | moveRight =>
      if config.policy = .bounded then 4
      else if config.length.cells.isPowerOfTwo then 2
      else 4
  | increment | decrement => if config.policy = .bounded then 4 else 1
  | output | input => 1
  | loopOpen => 5
  | loopClose => 0

/-- The number of lines that a command adds to a listing. With annotation every command but a
closing delimiter has a comment. -/
def cost (config : TapeConfig) (annotate : Bool) (c : Command) : Nat :=
  c.size config + if annotate && c != loopClose then 1 else 0

end Command

theorem TapeConfig.wraps_eq (config : TapeConfig) :
    config.wraps = !decide (config.policy = .bounded) := by
  unfold wraps
  cases config.policy <;> rfl

/-- A check takes three lines. -/
theorem length_checked (config : TapeConfig) (i : Instruction) (test : Line) (j : Jump) (e : Edge) :
    (checked config i test j e).length = if config.policy = .bounded then 3 else 0 := by
  rw [checked, config.wraps_eq]
  by_cases hpolicy : config.policy = .bounded
  · simp [hpolicy]
  · simp [hpolicy]

/-- A move takes one line on a bounded tape. Around the ends it takes a mask or a comparison. -/
theorem length_moveLines (config : TapeConfig) :
    (moveRightLines config).length = (moveLeftLines config).length ∧
    (moveLeftLines config).length =
      if config.policy = .bounded then 1
      else if config.length.cells.isPowerOfTwo then 2 else 4 := by
  rw [moveRightLines, moveLeftLines, config.wraps_eq]
  by_cases hpolicy : config.policy = .bounded
  · simp [hpolicy]
  · by_cases htwo : config.length.cells.isPowerOfTwo
    · simp [hpolicy, htwo, config.isPowerOfTwo_iff.2 htwo]
    · have hnot : config.isPowerOfTwo = false := by
        rw [← Bool.not_eq_true, config.isPowerOfTwo_iff]
        exact htwo
      simp [hpolicy, htwo, hnot]

/-- **The code of an instruction has as many lines as its command says.** -/
theorem Instruction.length_lines {i : Instruction} (hi : i.command.isDelimiter = false)
    (config : TapeConfig) : (i.lines config).length = i.command.size config := by
  obtain ⟨hright, hleft⟩ := length_moveLines config
  obtain ⟨command, index, offset⟩ := i
  cases command with
  | loopOpen | loopClose => cases hi
  | output | input => rfl
  | moveLeft =>
      show (checked config _ _ _ _ ++ moveLeftLines config).length = _
      rw [List.length_append, length_checked, hleft, Command.size]
      split
      · rfl
      · exact Nat.zero_add _
  | moveRight =>
      show (checked config _ _ _ _ ++ moveRightLines config).length = _
      rw [List.length_append, length_checked, hright, hleft, Command.size]
      split
      · rfl
      · exact Nat.zero_add _
  | increment | decrement =>
      show (checked config _ _ _ _ ++ [_]).length = _
      rw [List.length_append, length_checked, Command.size]
      split <;> rfl

theorem length_remark (annotate : Bool) (c : Comment) :
    (remark annotate c).length = if annotate then 1 else 0 := by
  cases annotate <;> rfl

/-! ## What a tree costs -/

/-- What the commands of a sequence of instructions cost together. -/
def costs (cost : Command → Nat) (xs : List Instruction) : Nat :=
  xs.foldr (fun i sum => cost i.command + sum) 0

theorem costs_append (cost : Command → Nat) (xs ys : List Instruction) :
    costs cost (xs ++ ys) = costs cost xs + costs cost ys := by
  induction xs with
  | nil => exact (Nat.zero_add _).symm
  | cons i xs ih =>
      show cost i.command + costs cost (xs ++ ys) = cost i.command + costs cost xs + _
      rw [ih, Nat.add_assoc]

/-- The tree forgets the offsets of delimiters, which cost nothing. -/
theorem costs_map_kept (cost : Command → Nat) (xs : List Instruction) :
    costs cost (xs.map Instruction.kept) = costs cost xs := by
  simp only [costs, List.foldr_map, Instruction.command_kept]

/-- **The code of a tree is as long as its commands cost**, whatever number its first loop has. -/
theorem Body.length_code {b : Body} (hb : b.DelimiterFree) (config : TapeConfig) (annotate : Bool)
    (n : Nat) :
    (b.code config annotate n).length = costs (Command.cost config annotate) b.flatten := by
  induction b generalizing n with
  | nil => rfl
  | instr i rest ih =>
      obtain ⟨hi, hrest⟩ := hb
      have hcost : i.command.cost config annotate =
          (if annotate then 1 else 0) + i.command.size config := by
        have hclose : (i.command != .loopClose) = true := by
          cases hc : i.command <;> simp_all [Command.isDelimiter]
        rw [Command.cost, hclose, Bool.and_true, Nat.add_comm]
      rw [code, flatten, List.length_append, List.length_append, length_remark,
        Instruction.length_lines hi, ih hrest]
      show _ = i.command.cost config annotate + costs _ rest.flatten
      rw [hcost, Nat.add_assoc]
  | loop inner openIndex closeIndex rest ihInner ihRest =>
      obtain ⟨hinner, hrest⟩ := hb
      -- head and foot are paid for by the opening delimiter, in front of the contents
      have hopen : Command.cost config annotate .loopOpen = 5 + if annotate then 1 else 0 := by
        cases annotate <;> rfl
      have hclose : Command.cost config annotate .loopClose = 0 := by
        cases annotate <;> rfl
      rw [code, flatten]
      show _ = Command.cost config annotate .loopOpen + costs _ (inner.flatten ++ _ :: rest.flatten)
      rw [costs_append]
      show _ = _ + (_ + (Command.cost config annotate .loopClose + costs _ rest.flatten))
      simp only [List.length_append, length_remark, ihInner hinner, ihRest hrest, hopen, hclose]
      show _ + (3 + (_ + (2 + _))) = _
      omega

/-! ## Sums over the table of commands -/

/-- The sum of the counts in a table, each multiplied by the weight of its command. -/
def weighted (weight : Command → Nat) (table : List (Command × Nat)) : Nat :=
  table.foldr (fun entry sum => weight entry.1 * entry.2 + sum) 0

/-- Entries that are zero weigh nothing. -/
theorem weighted_entries (weight count : Command → Nat) (cs : List Command) :
    weighted weight (entries count cs) = total (fullTable (fun c => weight c * count c) cs) := by
  induction cs with
  | nil => rfl
  | cons c cs ih =>
      rw [entries, fullTable] at ih ⊢
      by_cases hc : count c = 0
      · rw [List.filterMap_cons_none (by simp [hc]), ih]
        simp [total, hc]
      · rw [List.filterMap_cons_some (b := (c, count c)) (by simp [hc]), List.map_cons, total,
          weighted, List.foldr_cons, List.foldr_cons]
        exact congrArg (weight c * count c + ·) ih

/-- Every instruction adds the cost of its command once. -/
theorem costs_eq_total (cost : Command → Nat) (xs : List Instruction) :
    costs cost xs = total (fullTable (fun c => cost c * occurrences xs c) Command.all) := by
  induction xs with
  | nil => rfl
  | cons i xs ih =>
      have hcons : (fun c => cost c * occurrences (i :: xs) c) =
          fun c => cost c * occurrences xs c + if i.command = c then cost c else 0 := by
        funext c
        rw [occurrences, List.countP_cons, Nat.mul_add, ← occurrences]
        by_cases hc : i.command = c <;> simp [hc]
      rw [hcons, total_add, ← ih]
      show cost i.command + costs cost xs = _
      rw [Nat.add_comm]
      congr 1
      cases i.command <;> simp [total, fullTable, Command.all]

/-- **What a sequence costs can be read off the table of its commands.** -/
theorem weighted_commandCounts (cost : Command → Nat) (xs : List Instruction) :
    weighted cost (commandCounts xs) = costs cost xs := by
  rw [commandCounts_eq_entries, weighted_entries, costs_eq_total]

/-! ## Lines and newlines -/

/-- The newlines of a text are the ends of its lines. -/
theorem newlines_text {listing : Listing} (h : ∀ line ∈ listing, OneLine line.text) :
    newlines listing.text = listing.length := by
  rw [newlines, toList_text]
  induction listing with
  | nil => rfl
  | cons line listing ih =>
      rw [List.forall_mem_cons] at h
      rw [List.flatMap_cons, List.count_append, List.count_append, ih h.2,
        List.count_eq_zero.2 h.1, List.length_cons]
      exact Nat.add_comm ..

/-- The listing of a tree has the lines of the empty listing, and those of its code. -/
theorem newlines_listingOf (config : TapeConfig) (annotate : Bool) (b : Body) :
    newlines (listingOf config annotate b).text =
      newlines (listingOf config annotate .nil).text + (b.code config annotate 0).length := by
  rw [newlines_text (oneLine_listingOf config annotate b),
    newlines_text (oneLine_listingOf config annotate .nil)]
  simp only [listingOf, List.length_append, Body.code, List.length_nil]
  omega

/-- **The size of a listing is linear in the counts of the commands.** For every text that is a
program, every tape and with or without annotation, the pipeline compiles the text, and the number
of lines it reports is that of the listing of the empty text, which does not depend on annotation,
and for every command the number of its lines as often as the table of commands says. -/
theorem size_is_linear_in_counts (r : Pipeline) (p : Program)
    (h : (parse r.source).value = .ok p) (fuel : Nat) :
    ∃ result blank, ((r.inMode .compile).run fuel).value.result = .ok result ∧
      (∀ annotate, (compile "" r.config annotate).value = .ok blank) ∧
      result.pipeline.assemblyLines = (newlines blank.text +
        weighted (Command.cost r.config r.annotate) (countCommands r.source).value : Nat) := by
  obtain ⟨hflat, -, hfree⟩ := flatten_of_nestLogged (parse_value r.source ▸ h)
  have hblank : ∀ annotate, (compile "" r.config annotate).value =
      .ok (listingOf r.config r.annotate .nil) :=
    fun annotate => value_compile_of_ok (p := { body := .nil }) rfl r.config annotate
  obtain ⟨listing, pipeline, hcompile, hresult, hsizes⟩ :=
    (Pipeline.compiles_of_parse h fuel).result
  refine ⟨_, _, hresult, hblank, ?_⟩
  have hlisting : listing = listingOf r.config r.annotate p.body :=
    Except.ok.inj (hcompile.symm.trans (value_compile_of_ok h r.config r.annotate))
  rw [hsizes.assemblyLines, hlisting, newlines_listingOf, Body.length_code hfree, hflat,
    costs_map_kept, value_countCommands, weighted_commandCounts]

/-- An annotated program that moves a cell around a tape of twelve cells. -/
theorem size_of_moving_loop :
    let r : Pipeline :=
      { source := "+[->+<]", config := { policy := .wrapping, length := .number 12 },
        annotate := true }
    ∃ result blank, ((r.inMode .compile).run 0).value.result = .ok result ∧
      (compile "" r.config false).value = .ok blank ∧
      result.pipeline.assemblyLines = (newlines blank.text + 22 : Nat) := by
  intro r
  have hp : (parse "+[->+<]").value = .ok _ := rfl
  have hcost : weighted (Command.cost { policy := .wrapping, length := .number 12 } true)
      (countCommands "+[->+<]").value = 22 := rfl
  obtain ⟨result, blank, hresult, hblank, hlines⟩ := size_is_linear_in_counts r _ hp 0
  refine ⟨result, blank, hresult, hblank false, ?_⟩
  rw [← hcost]
  exact hlines

end TapeLang
