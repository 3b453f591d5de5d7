import Std.Data.String.ToInt
import TapeLang.Proofs.Generator.Symbols
import TapeLang.Proofs.Nesting.Statistics

/-!
# Outlines and the trees they show

The outline of a program is made by walking through its tree. Read by recursion, it is a sequence of
marks, each at a depth: an instruction has one mark, and a loop has one in front of its contents and
one behind them (`Body.marks`). A line is a mark behind as many indents as loops are around it.

An outline whose indent is made of blanks can be read back. Its lines are the pieces between its
newlines, the blanks in front of a line can be dropped, and the text that is left is the text of one
mark only (`Mark.text_injective`). The marks of a tree determine the tree without their depths,
because an instruction is never mistaken for a delimiter of a loop (`Body.eq_of_marks`). So the
indent may also be empty. The main statement is `outline_shows_the_tree`.
-/

set_option autoImplicit false

namespace TapeLang

open Assembly

/-! ## Marks -/

/-- What a line of an outline shows, apart from its depth. -/
inductive Mark where
  | instr (i : Instruction)
  /-- The beginning of a loop. -/
  | opening (openIndex closeIndex : Int)
  /-- The end of a loop. -/
  | closing
  deriving DecidableEq, Repr

/-- The text of a mark. -/
def Mark.text : Mark → String
  | instr i => i.text
  | opening openIndex closeIndex => "[  # " ++ toString openIndex ++ ".." ++ toString closeIndex
  | closing => "]"

/-- The mark of a node: that of an instruction, or the beginning of a loop. -/
def Node.mark : Node → Mark
  | .instr i => .instr i
  | .loop _ openIndex closeIndex => .opening openIndex closeIndex

/-- The marks of a body inside `depth` loops, each with the number of loops around it. -/
def Body.marks (depth : Nat) : Body → List (Nat × Mark)
  | nil => []
  | instr i rest => (depth, .instr i) :: rest.marks depth
  | loop inner openIndex closeIndex rest =>
      (depth, .opening openIndex closeIndex) ::
        (inner.marks (depth + 1) ++ (depth, .closing) :: rest.marks depth)

/-- The line of a mark: the indent as often as its depth says, and its text. -/
def Mark.line (indent : String) (placed : Nat × Mark) : String :=
  String.join (List.replicate placed.1 indent) ++ placed.2.text

/-! ## The outline of a program -/

theorem Text.repeated_eq_join (n : Nat) (text : String) :
    repeated n text = String.join (List.replicate n text) := by
  induction n with
  | zero => rw [repeated_zero, List.replicate_zero, String.join_nil]
  | succ n ih => rw [repeated_succ, ih, List.replicate_succ, String.join_cons]

/-- A walk writes the lines of the marks. -/
theorem Body.map_line_tour (indent : String) (b : Body) (depth : Nat) :
    (b.tour depth).map (Visit.line indent) = (b.marks depth).map (Mark.line indent) := by
  induction b generalizing depth with
  | nil => rfl
  | instr i rest ih =>
      rw [tour, marks, List.map_cons, List.map_cons, ih, Visit.line, Text.repeated_eq_join]
      rfl
  | loop inner openIndex closeIndex rest ihInner ihRest =>
      have hopening : Visit.line indent (.enter depth inner openIndex closeIndex) =
          Mark.line indent (depth, .opening openIndex closeIndex) := by
        simp only [Visit.line, Mark.line, Mark.text, Text.repeated_eq_join, String.append_assoc]
      have hclosing : Visit.line indent (.leave depth) = Mark.line indent (depth, .closing) := by
        rw [Visit.line, Text.repeated_eq_join]
        rfl
      rw [tour, marks, List.map_cons, List.map_cons, List.map_append, List.map_append,
        List.map_cons, List.map_cons, ihInner, ihRest, hopening, hclosing]

/-- **The outline of a program joins the lines of its marks.** -/
theorem Program.outlineWith_eq (p : Program) (indent : String) :
    p.outlineWith indent = "\n".intercalate ((p.body.marks 0).map (Mark.line indent)) := by
  rw [outlineWith, Body.visits_eq_tour, Body.map_line_tour]

/-- There is a mark for each node, and another one for each loop. -/
theorem Body.length_marks (b : Body) (depth : Nat) :
    (b.marks depth).length = (b.nodesFrom depth).length + b.loops := by
  induction b generalizing depth with
  | nil => rfl
  | instr i rest ih =>
      rw [marks, nodesFrom_instr, loops, List.length_cons, List.length_cons, ih]
      omega
  | loop inner openIndex closeIndex rest ihInner ihRest =>
      rw [marks, nodesFrom_loop, loops, List.length_cons, List.length_cons, List.length_append,
        List.length_append, List.length_cons, ihInner, ihRest]
      omega

/-- The marks that are no ends of loops are those of the nodes, in the order of the walk. -/
theorem Body.filter_marks (b : Body) (depth : Nat) :
    (b.marks depth).filter (fun placed => placed.2 ≠ .closing) =
      (b.nodesFrom depth).map fun node => (node.1, node.2.mark) := by
  induction b generalizing depth with
  | nil => rfl
  | instr i rest ih =>
      rw [marks, nodesFrom_instr, List.filter_cons_of_pos (by simp), List.map_cons, ih]
      rfl
  | loop inner openIndex closeIndex rest ihInner ihRest =>
      rw [marks, nodesFrom_loop, List.filter_cons_of_pos (by simp), List.filter_append,
        List.filter_cons_of_neg (by simp), List.map_cons, List.map_append, ihInner, ihRest]
      rfl

/-! ## Numbers in a text -/

/-- Whether a character can stand in the text of an integer. -/
def isNumeralChar (c : Char) : Bool :=
  c.isDigit || c == '-'

theorem isNumeralChar_of_mem {n : Int} {c : Char} (h : c ∈ (toString n).toList) :
    isNumeralChar c = true := by
  have hdigit : ∀ {m : Nat}, c ∈ (toString m).toList → isNumeralChar c = true := by
    intro m hm
    rw [isNumeralChar, isDigit_of_mem_toString hm]
    rfl
  cases n with
  | ofNat m => exact hdigit h
  | negSucc m =>
      have hsign : (toString (Int.negSucc m)).toList = '-' :: (toString (m + 1)).toList := by
        show ("-" ++ toString (m + 1)).toList = _
        rw [String.toList_append]
        rfl
      rw [hsign] at h
      rcases List.mem_cons.1 h with rfl | hm
      · rfl
      · exact hdigit hm

theorem toString_int_inj {m n : Int} (h : (toString m).toList = (toString n).toList) : m = n := by
  apply Int.repr_injective
  rw [← Int.toString_eq_repr, ← Int.toString_eq_repr]
  exact String.toList_inj.1 h

/-- **A number in front of other text is read as a whole.** -/
theorem numeral_append_inj {m n : Int} {c d : Char} {s t : List Char}
    (hc : isNumeralChar c = false) (hd : isNumeralChar d = false)
    (h : (toString m).toList ++ c :: s = (toString n).toList ++ d :: t) :
    m = n ∧ c :: s = d :: t := by
  have hstop : ∀ {k : Int} {e : Char} {u : List Char}, isNumeralChar e = false →
      ((toString k).toList ++ e :: u).takeWhile isNumeralChar = (toString k).toList := by
    intro k e u he
    rw [List.takeWhile_append_of_pos fun _ hmem => isNumeralChar_of_mem hmem,
      List.takeWhile_cons_of_neg (by simp [he]), List.append_nil]
  have hfront := congrArg (List.takeWhile isNumeralChar) h
  rw [hstop hc, hstop hd] at hfront
  constructor
  · exact toString_int_inj hfront
  · rw [hfront] at h
    exact List.append_cancel_left h

theorem Command.symbol_injective {c d : Command} (h : c.symbol = d.symbol) : c = d := by
  have hread := congrArg ofSymbol? h
  rwa [ofSymbol?_symbol, ofSymbol?_symbol, Option.some_inj] at hread

/-! ## Reading a mark -/

namespace Mark

theorem toList_text_instr (i : Instruction) :
    (instr i).text.toList =
      i.command.symbol ::
        ("  # ".toList ++ ((toString i.index).toList ++ '@' :: (toString i.offset).toList)) := by
  show (i.command.symbol.toString ++ "  # " ++ toString i.index ++ "@" ++
    toString i.offset).toList = _
  simp only [String.toList_append, Char.toString_eq_singleton, String.toList_singleton,
    List.append_assoc]
  rfl

theorem toList_text_opening (openIndex closeIndex : Int) :
    (opening openIndex closeIndex).text.toList =
      '[' :: ("  # ".toList ++
        ((toString openIndex).toList ++ '.' :: '.' :: (toString closeIndex).toList)) := by
  show ("[  # " ++ toString openIndex ++ ".." ++ toString closeIndex).toList = _
  simp only [String.toList_append, List.append_assoc]
  rfl

/-- An instruction is never taken for the beginning of a loop: even the text of an opening delimiter
goes on with another sign behind its index. -/
theorem text_instr_ne_opening (i : Instruction) (openIndex closeIndex : Int) :
    (instr i).text ≠ (opening openIndex closeIndex).text := by
  intro h
  have hchars := congrArg String.toList h
  rw [toList_text_instr, toList_text_opening, List.cons.injEq] at hchars
  have hnumbers := List.append_cancel_left hchars.2
  have hsigns := (numeral_append_inj rfl rfl hnumbers).2
  cases hsigns

/-- An instruction is never taken for the end of a loop, which has no index at all. -/
theorem text_instr_ne_closing (i : Instruction) : (instr i).text ≠ closing.text := by
  intro h
  have hchars := congrArg String.toList h
  rw [toList_text_instr] at hchars
  cases (List.cons.inj hchars).2

theorem text_opening_ne_closing (openIndex closeIndex : Int) :
    (opening openIndex closeIndex).text ≠ closing.text := by
  intro h
  have hchars := congrArg String.toList h
  rw [toList_text_opening] at hchars
  cases hchars

/-- **Different marks have different texts.** -/
theorem text_injective {a b : Mark} (h : a.text = b.text) : a = b := by
  have hchars := congrArg String.toList h
  cases a with
  | instr i =>
      cases b with
      | instr j =>
          rw [toList_text_instr, toList_text_instr, List.cons.injEq] at hchars
          obtain ⟨hsymbol, hrest⟩ := hchars
          have hnumbers := List.append_cancel_left hrest
          obtain ⟨hindex, hbehind⟩ := numeral_append_inj rfl rfl hnumbers
          have hoffset := toString_int_inj (List.tail_eq_of_cons_eq hbehind)
          rw [Mark.instr.injEq, Instruction.mk.injEq]
          exact ⟨Command.symbol_injective hsymbol, hindex, hoffset⟩
      | opening openIndex closeIndex => exact absurd h (text_instr_ne_opening i _ _)
      | closing => exact absurd h (text_instr_ne_closing i)
  | opening openIndex closeIndex =>
      cases b with
      | instr j => exact absurd h.symm (text_instr_ne_opening j _ _)
      | opening openIndex' closeIndex' =>
          rw [toList_text_opening, toList_text_opening, List.cons.injEq] at hchars
          have hnumbers := List.append_cancel_left hchars.2
          obtain ⟨hopen, hbehind⟩ := numeral_append_inj rfl rfl hnumbers
          have hclose := toString_int_inj
            (List.tail_eq_of_cons_eq (List.tail_eq_of_cons_eq hbehind))
          rw [hopen, hclose]
      | closing => exact absurd h (text_opening_ne_closing _ _)
  | closing =>
      cases b with
      | instr j => exact absurd h.symm (text_instr_ne_closing j)
      | opening openIndex closeIndex => exact absurd h.symm (text_opening_ne_closing _ _)
      | closing => rfl

/-- The text of a mark begins with a symbol. -/
theorem exists_symbol (m : Mark) : ∃ c : Command, ∃ rest, m.text.toList = c.symbol :: rest := by
  cases m with
  | instr i => exact ⟨i.command, _, toList_text_instr i⟩
  | opening openIndex closeIndex => exact ⟨.loopOpen, _, toList_text_opening openIndex closeIndex⟩
  | closing => exact ⟨.loopClose, [], rfl⟩

theorem oneLine_text (m : Mark) : OneLine m.text := by
  cases m with
  | instr i =>
      have hfront : OneLine (i.command.symbol.toString ++ "  # ") := by
        cases i.command <;> decide
      have hindex := (hfront.append (oneLine_int i.index)).append (b := "@") (by decide)
      exact hindex.append (oneLine_int i.offset)
  | opening openIndex closeIndex =>
      exact .append (.append (.append (by decide) (oneLine_int openIndex)) (by decide))
        (oneLine_int closeIndex)
  | closing => decide

end Mark

/-! ## Reading an outline -/

/-- The pieces of a text between its newlines, each without the blanks in front of it. Empty pieces
are left out. -/
def unindented (text : String) : List (List Char) :=
  ((linesOf text).filter fun line => !line.isEmpty).map fun line => line.dropWhile (· == ' ')

section Blanks

variable {indent : String} (hindent : ∀ c ∈ indent.toList, c = ' ')

include hindent

/-- Repeating blanks makes blanks. -/
theorem eq_blank_of_mem_join {n : Nat} {c : Char}
    (hc : c ∈ (String.join (List.replicate n indent)).toList) : c = ' ' := by
  rw [String.toList_join, List.mem_flatMap] at hc
  obtain ⟨copy, hcopy, hmem⟩ := hc
  rw [List.eq_of_mem_replicate hcopy] at hmem
  exact hindent c hmem

theorem Mark.oneLine_line (placed : Nat × Mark) : OneLine (Mark.line indent placed) := by
  refine .append ?_ placed.2.oneLine_text
  intro hnewline
  cases eq_blank_of_mem_join hindent hnewline

/-- Without the blanks in front, a line is the text of its mark. -/
theorem Mark.dropWhile_line (placed : Nat × Mark) :
    (Mark.line indent placed).toList.dropWhile (· == ' ') = placed.2.text.toList := by
  obtain ⟨command, rest, htext⟩ := placed.2.exists_symbol
  have hsymbol : (command.symbol == ' ') = false := by
    cases command <;> rfl
  rw [line, String.toList_append, List.dropWhile_append_of_pos, htext,
    List.dropWhile_cons_of_neg (by simp [hsymbol])]
  intro c hc
  rw [eq_blank_of_mem_join hindent hc]
  rfl

/-- **The lines of an outline can be told apart, and their indents be dropped.** -/
theorem Program.unindented_outlineWith (p : Program) :
    unindented (p.outlineWith indent) =
      (p.body.marks 0).map fun placed => placed.2.text.toList := by
  rw [p.outlineWith_eq indent]
  generalize p.body.marks 0 = marks
  have hlines : (linesOf ("\n".intercalate (marks.map (Mark.line indent)))).filter
      (fun line => !line.isEmpty) = marks.map fun placed => (Mark.line indent placed).toList := by
    rw [linesOf, String.toList_intercalate, List.map_map]
    -- no line is empty, and without any line there is one empty piece, which is left out
    cases hmarks : marks with
    | nil => rfl
    | cons first more =>
        rw [← hmarks]
        have hsplit : (['\n'].intercalate (marks.map (String.toList ∘ Mark.line indent))).splitOn
            '\n' = marks.map (String.toList ∘ Mark.line indent) := by
          apply List.splitOn_intercalate
          · intro line hline
            obtain ⟨placed, -, rfl⟩ := List.mem_map.1 hline
            exact Mark.oneLine_line hindent placed
          · simp [hmarks]
        show (List.splitOn '\n' (['\n'].intercalate _)).filter _ = _
        rw [hsplit]
        apply List.filter_eq_self.2
        intro line hline
        obtain ⟨placed, -, rfl⟩ := List.mem_map.1 hline
        obtain ⟨command, rest, htext⟩ := placed.2.exists_symbol
        simp [Mark.line, htext]
  rw [unindented, hlines, List.map_map]
  apply List.map_congr_left
  intro placed _
  exact Mark.dropWhile_line hindent placed

end Blanks

/-! ## From marks to trees -/

/-- Nothing follows, or the end of a loop. -/
def AtEnd (marks : List Mark) : Prop :=
  ∀ m ∈ marks.head?, m = .closing

/-- **The marks of a tree determine the tree**, wherever it stands and whatever comes behind it. -/
theorem Body.eq_of_marks {b b' : Body} {depth depth' : Nat} {s t : List Mark} (hs : AtEnd s)
    (ht : AtEnd t)
    (h : (b.marks depth).map Prod.snd ++ s = (b'.marks depth').map Prod.snd ++ t) :
    b = b' ∧ s = t := by
  -- what begins with a node does not come behind the end of a body
  have hnode : ∀ {m : Mark} {marks rest : List Mark}, AtEnd marks → m ≠ .closing →
      marks ≠ m :: rest := by
    rintro m marks rest hmarks hm rfl
    exact hm (hmarks m rfl)
  induction b generalizing b' depth depth' s t with
  | nil =>
      cases b' with
      | nil => exact ⟨rfl, h⟩
      | instr j rest => exact absurd h (hnode hs (by simp))
      | loop inner openIndex closeIndex rest => exact absurd h (hnode hs (by simp))
  | instr i rest ih =>
      cases b' with
      | nil => exact absurd h.symm (hnode ht (by simp))
      | instr j rest' =>
          obtain ⟨hmark, hrest⟩ := List.cons.inj h
          cases hmark
          obtain ⟨rfl, rfl⟩ := ih hs ht hrest
          exact ⟨rfl, rfl⟩
      | loop inner openIndex closeIndex rest' => cases (List.cons.inj h).1
  | loop inner openIndex closeIndex rest ihInner ihRest =>
      cases b' with
      | nil => exact absurd h.symm (hnode ht (by simp))
      | instr j rest' => cases (List.cons.inj h).1
      | loop inner' openIndex' closeIndex' rest' =>
          rw [marks, marks, List.map_cons, List.map_cons, List.map_append, List.map_append,
            List.cons_append, List.cons_append, List.append_assoc, List.append_assoc] at h
          obtain ⟨hmark, hbehind⟩ := List.cons.inj h
          cases hmark
          -- the contents of both loops end with the end of a loop
          have hclosing : ∀ marks, AtEnd (.closing :: marks) := by
            rintro marks _ ⟨⟩
            rfl
          obtain ⟨rfl, hends⟩ := ihInner (hclosing _) (hclosing _) hbehind
          obtain ⟨rfl, rfl⟩ := ihRest hs ht (List.tail_eq_of_cons_eq hends)
          exact ⟨rfl, rfl⟩

/-- **An outline shows the tree, and determines it.** For every program, also one with delimiters
among its instructions, and every indent, the outline joins the lines of the marks that recursion on
the tree yields. There is a mark for each primitive and two for each loop, and those that are no
ends of loops are the marks of the nodes, in the order of the walk and with its depths. If the
indent has no other characters than blanks, or none, two programs have the same outline exactly if
they have the same tree. -/
theorem outline_shows_the_tree :
    (∀ (p : Program) (indent : String),
      p.outlineWith indent = "\n".intercalate ((p.body.marks 0).map (Mark.line indent)) ∧
      (p.body.marks 0).length = p.primitiveCount + 2 * p.loopCount ∧
      (p.body.marks 0).filter (fun placed => placed.2 ≠ .closing) =
        p.nodes.map fun node => (node.1, node.2.mark)) ∧
    ∀ indent : String, (∀ c ∈ indent.toList, c = ' ') → ∀ p q : Program,
      p.outlineWith indent = q.outlineWith indent ↔ p.body = q.body := by
  constructor
  · intro p indent
    refine ⟨p.outlineWith_eq indent, ?_, ?_⟩
    · rw [Body.length_marks, ← p.nodes_eq, p.length_nodes, p.loopCount_eq_loops]
      omega
    · rw [Body.filter_marks, p.nodes_eq]
  · intro indent hindent p q
    constructor
    · intro h
      have htexts := congrArg unindented h
      rw [p.unindented_outlineWith hindent, q.unindented_outlineWith hindent] at htexts
      have hmarks : (p.body.marks 0).map Prod.snd = (q.body.marks 0).map Prod.snd := by
        have hinjective : Function.Injective fun m : Mark => m.text.toList := by
          intro a b hab
          exact Mark.text_injective (String.toList_inj.1 hab)
        apply hinjective.list_map
        rw [List.map_map, List.map_map]
        exact htexts
      have hend : AtEnd [] := by
        rintro _ ⟨⟩
      have hbehind : (p.body.marks 0).map Prod.snd ++ [] = (q.body.marks 0).map Prod.snd ++ [] := by
        rw [hmarks]
      exact (Body.eq_of_marks hend hend hbehind).1
    · intro hbody
      rw [Program.outlineWith, Program.outlineWith, hbody]

/-- Without an indent, an opening and a closing delimiter that were put into a tree as instructions
still do not look like the loop between them. -/
theorem outline_of_delimiters :
    let pair : Program :=
      { body := .instr ⟨.loopOpen, 0, 0⟩ (.instr ⟨.loopClose, 1, 1⟩ .nil) }
    let empty : Program := { body := .loop .nil 0 1 .nil }
    (∀ c ∈ "".toList, c = ' ') ∧ pair.outlineWith "" ≠ empty.outlineWith "" := by
  intro pair empty
  have hindent : ∀ c ∈ "".toList, c = ' ' := by simp
  refine ⟨hindent, ?_⟩
  intro h
  have hbody := (outline_shows_the_tree.2 "" hindent pair empty).1 h
  cases hbody

end TapeLang
