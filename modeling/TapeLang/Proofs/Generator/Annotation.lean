import TapeLang.Proofs.Generator.Symbols
import TapeLang.Proofs.Nesting.Statistics

/-!
# Annotated listings

A generator can be told to put a remark in front of the code of every node. In a text, a remark is a
line whose first character that is not blank is a semicolon (`isRemark`). The lines that the
generator means as comments are those lines and no others (`Line.isRemark_text`).

Remarks are all that annotation adds, line for line (`Body.filter_not_isComment_code`), and they
follow the walk through the tree (`Body.filter_isComment_code`). Each stands where the code of its
node begins (`Body.commentStands_code`), also inside loops, whose own code is around that of their
contents.
-/

set_option autoImplicit false

namespace TapeLang

open Assembly

/-! ## Remarks in a text -/

/-- Whether a line of a text is a remark: after blanks it begins with a semicolon. -/
def isRemark (line : List Char) : Bool :=
  (line.dropWhile Char.isWhitespace).head? == some ';'

/-- A text without its remarks. -/
def withoutRemarks (text : String) : String :=
  String.ofList (['\n'].intercalate ((linesOf text).filter fun line => !isRemark line))

theorem isRemark_cons {c : Char} (hc : c.isWhitespace = false) (rest : List Char) :
    isRemark (c :: rest) = (c == ';') := by
  rw [isRemark, List.dropWhile_cons_of_neg (by simp [hc])]
  rfl

/-- A line that begins with a name is no remark. -/
theorem isRemark_name (n : Name) (rest : List Char) : isRemark (n.text.toList ++ rest) = false := by
  obtain ⟨c, more, hname⟩ := List.exists_cons_of_ne_nil n.toList_text_ne_nil
  have hc : isSymbolChar c = true := n.isSymbolChar_text c (hname ▸ List.mem_cons_self)
  -- neither a blank nor a semicolon is a character of names
  have hblank : c.isWhitespace = false := by
    rw [← Bool.not_eq_true]
    intro hwhite
    simp only [Char.isWhitespace, Bool.or_eq_true, decide_eq_true_eq] at hwhite
    rcases hwhite with ((rfl | rfl) | rfl) | rfl <;> cases hc
  have hsemicolon : c ≠ ';' := by
    rintro rfl
    cases hc
  rw [hname, List.cons_append, isRemark_cons hblank, beq_eq_false_iff_ne]
  exact hsemicolon

/-- An instruction is no remark. -/
theorem isRemark_code (o : Operation) : isRemark (Line.code o).text.toList = false := by
  cases o with
  | binary op dst src => cases op <;> simp [isRemark, Line.text, Operation.text, Binary.text]
  | unary op arg => cases op <;> simp [isRemark, Line.text, Operation.text, Unary.text]
  | lea dst a => simp [isRemark, Line.text, Operation.text]
  | jump j target => cases j <;> simp [isRemark, Line.text, Operation.text, Jump.text]
  | call n => simp [isRemark, Line.text, Operation.text]
  | ret | syscall => decide

/-- Whether a line is a comment. -/
def Assembly.Line.isComment : Line → Bool
  | .comment _ => true
  | _ => false

/-- **The remarks of a text are the comments of its listing.** -/
theorem Assembly.Line.isRemark_text (line : Line) :
    isRemark line.text.toList = line.isComment := by
  cases line with
  | blank | format | codeSegment | dataSegment | anonymous => decide
  | entry n => simp [text, isRemark, isComment]
  | define n d =>
      simp only [text, String.toList_append, List.append_assoc, isRemark_name, isComment]
  | label n => simp only [text, String.toList_append, isRemark_name, isComment]
  | comment c => cases c <;> simp [text, Comment.text, isRemark, isComment]
  | code o => exact isRemark_code o
  | bytes n s =>
      simp only [text, String.toList_append, List.append_assoc, isRemark_name, isComment]
  | reserve n count =>
      simp only [text, String.toList_append, List.append_assoc, isRemark_name, isComment]

theorem isRemark_comp_text :
    (isRemark ∘ fun line : Line => line.text.toList) = Line.isComment :=
  funext Line.isRemark_text

/-! ## Comments in a listing -/

/-- The comment that a node gets. -/
def Node.comment : Node → Comment
  | .instr i => .instruction i.command i.index
  | .loop _ openIndex closeIndex => .loop openIndex closeIndex

/-- The comments of some nodes, in order. -/
def comments (nodes : List (Nat × Node)) : Listing :=
  nodes.map fun node => .comment node.2.comment

theorem comments_cons (node : Nat × Node) (nodes : List (Nat × Node)) :
    comments (node :: nodes) = .comment node.2.comment :: comments nodes := rfl

theorem comments_append (a b : List (Nat × Node)) : comments (a ++ b) = comments a ++ comments b :=
  List.map_append

/-- Whether a node is a loop. -/
def Node.isLoop : Node → Bool
  | .instr _ => false
  | .loop .. => true

/-- The code of a node with annotations, where loops have the numbers from `n` on. -/
def Node.code (config : TapeConfig) (n : Nat) : Node → Listing
  | .instr i => i.lines config
  | .loop inner _ _ => loopHead n ++ (inner.code config true (n + 1) ++ loopFoot n)

/-- Lines without a comment among them. -/
def Uncommented (lines : Listing) : Prop :=
  lines.filter Line.isComment = []

theorem Uncommented.filter_not {lines : Listing} (h : Uncommented lines) :
    lines.filter (fun line => !line.isComment) = lines := by
  rw [List.filter_eq_self]
  intro line hline
  rw [Uncommented, List.filter_eq_nil_iff] at h
  simpa using h line hline

/-- The code of an instruction has no comments of its own. -/
theorem uncommented_lines (config : TapeConfig) (i : Instruction) :
    Uncommented (i.lines config) := by
  rw [Uncommented, List.filter_eq_nil_iff]
  intro line hline
  have hoperation := List.all_eq_true.1 (Native.all_isOperation_lines config i) line hline
  cases line with
  | code o => exact Bool.false_ne_true
  | _ => cases hoperation

theorem uncommented_loopHead (n : Nat) : Uncommented (loopHead n) := rfl

theorem uncommented_loopFoot (n : Nat) : Uncommented (loopFoot n) := rfl

theorem uncommented_header (length : TapeLength) : Uncommented (header length) := rfl

theorem uncommented_trailer (config : TapeConfig) : Uncommented (trailer config) := by
  rw [Uncommented, trailer, faultRoutines, dataSegment]
  cases config.wraps <;> rfl

namespace Body

variable (config : TapeConfig)

theorem countP_isLoop_nodesFrom (depth : Nat) (b : Body) :
    (b.nodesFrom depth).countP (fun node => node.2.isLoop) = b.loops := by
  rw [nodesFrom, List.countP_filterMap, ← countP_isEnter_tour b depth]
  apply List.countP_congr
  intro v _
  cases v <;> simp [Visit.isEnter, Visit.node?, Node.isLoop]

/-- **Without its comments, annotated code is plain code.** -/
theorem filter_not_isComment_code (n : Nat) (b : Body) :
    (b.code config true n).filter (fun line => !line.isComment) = b.code config false n := by
  have hremark : ∀ c, (remark true c).filter (fun line => !line.isComment) = remark false c :=
    fun _ => rfl
  induction b generalizing n with
  | nil => rfl
  | instr i rest ih =>
      rw [code, code, List.filter_append, List.filter_append, hremark,
        (uncommented_lines config i).filter_not, ih]
  | loop inner openIndex closeIndex rest ihInner ihRest =>
      rw [code, code, List.filter_append, List.filter_append, List.filter_append,
        List.filter_append, hremark, (uncommented_loopHead n).filter_not,
        (uncommented_loopFoot n).filter_not, ihInner, ihRest]

/-- **The comments follow the walk.** -/
theorem filter_isComment_code (depth n : Nat) (b : Body) :
    (b.code config true n).filter Line.isComment = comments (b.nodesFrom depth) := by
  have hremark : ∀ c, (remark true c).filter Line.isComment = [.comment c] := fun _ => rfl
  induction b generalizing depth n with
  | nil => rfl
  | instr i rest ih =>
      rw [code, List.filter_append, List.filter_append, hremark, uncommented_lines config i,
        ih depth, nodesFrom_instr]
      rfl
  | loop inner openIndex closeIndex rest ihInner ihRest =>
      rw [code, List.filter_append, List.filter_append, List.filter_append, List.filter_append,
        hremark, uncommented_loopHead n, uncommented_loopFoot n, ihInner (depth + 1), ihRest depth,
        nodesFrom_loop, comments_cons, comments_append]
      rfl

end Body

/-! ## Where a comment stands -/

/-- The comment of a node stands in some lines where the code of the node begins, and behind the
comments of the nodes `before` it and no others. -/
def CommentStands (config : TapeConfig) (n : Nat) (before : List (Nat × Node)) (node : Node)
    (lines : Listing) : Prop :=
  ∃ front back, lines = front ++ .comment node.comment :: (node.code config n ++ back) ∧
    front.filter Line.isComment = comments before

namespace CommentStands

variable {config : TapeConfig} {n : Nat} {before : List (Nat × Node)} {node : Node}
  {lines : Listing}

/-- Lines in front add their comments to those before. -/
theorem behind (nodes : List (Nat × Node)) {more : Listing}
    (hmore : more.filter Line.isComment = comments nodes)
    (h : CommentStands config n before node lines) :
    CommentStands config n (nodes ++ before) node (more ++ lines) := by
  obtain ⟨front, back, rfl, hfront⟩ := h
  refine ⟨more ++ front, back, (List.append_assoc ..).symm, ?_⟩
  rw [List.filter_append, hmore, hfront, comments_append]

theorem inFront (h : CommentStands config n before node lines) (more : Listing) :
    CommentStands config n before node (lines ++ more) := by
  obtain ⟨front, back, rfl, hfront⟩ := h
  refine ⟨front, back ++ more, ?_, hfront⟩
  simp only [List.append_assoc, List.cons_append]

end CommentStands

/-- An element of two lists in a row is in the second or in the first. -/
theorem append_eq_append_cons {α : Type} {xs ys before after : List α} {a : α}
    (h : xs ++ ys = before ++ a :: after) :
    (∃ tail, before = xs ++ tail ∧ ys = tail ++ a :: after) ∨
      ∃ tail, xs = before ++ a :: tail := by
  obtain ⟨tail, hbefore, hys⟩ | ⟨tail, hxs, hafter⟩ := List.append_eq_append_iff.1 h
  · exact .inl ⟨tail, hbefore, hys⟩
  · cases tail with
    | nil => exact .inl ⟨[], by simpa using hxs.symm, by simpa using hafter.symm⟩
    | cons b tail =>
        obtain ⟨rfl, -⟩ := List.cons.inj hafter
        exact .inr ⟨tail, hxs⟩

/-- **Every comment stands where the code of its node begins.** The loops that the walk meets before
the node have the numbers before its own. -/
theorem Body.commentStands_code (config : TapeConfig) (b : Body) (depth n : Nat)
    {before after : List (Nat × Node)} {node : Nat × Node}
    (h : b.nodesFrom depth = before ++ node :: after) :
    CommentStands config (n + before.countP fun node => node.2.isLoop) before node.2
      (b.code config true n) := by
  induction b generalizing depth n before after with
  | nil => simp [nodesFrom, tour] at h
  | instr i rest ih =>
      rw [nodesFrom_instr] at h
      cases before with
      | nil =>
          obtain ⟨rfl, -⟩ := List.cons.inj h
          exact ⟨[], rest.code config true n, rfl, rfl⟩
      | cons first before =>
          obtain ⟨rfl, hrest⟩ := List.cons.inj h
          rw [List.countP_cons_of_neg (by simp [Node.isLoop])]
          -- the comment and the lines of the first instruction come before everything else
          apply CommentStands.behind [_] rfl
          apply CommentStands.behind [] (uncommented_lines config i)
          exact ih depth n hrest
  | loop inner openIndex closeIndex rest ihInner ihRest =>
      rw [nodesFrom_loop] at h
      cases before with
      | nil =>
          obtain ⟨rfl, -⟩ := List.cons.inj h
          refine ⟨[], rest.code config true (n + (inner.loops + 1)), ?_, rfl⟩
          simp [code, remark, Node.comment, Node.code]
      | cons first before =>
          obtain ⟨rfl, hnodes⟩ := List.cons.inj h
          rw [List.countP_cons_of_pos rfl]
          apply CommentStands.behind [_] rfl
          apply CommentStands.behind [] (uncommented_loopHead n)
          -- behind the head of the loop, the node is after the loop or inside it
          obtain ⟨tail, rfl, hrest⟩ | ⟨tail, hinner⟩ := append_eq_append_cons hnodes
          · apply CommentStands.behind _ (filter_isComment_code config (depth + 1) (n + 1) inner)
            apply CommentStands.behind [] (uncommented_loopFoot n)
            have hnumber : n + ((inner.nodesFrom (depth + 1) ++ tail).countP
                (fun node => node.2.isLoop) + 1) =
                n + (inner.loops + 1) + tail.countP fun node => node.2.isLoop := by
              rw [List.countP_append, countP_isLoop_nodesFrom]
              omega
            rw [hnumber]
            exact ihRest depth (n + (inner.loops + 1)) hrest
          · apply CommentStands.inFront
            rw [← Nat.add_assoc, Nat.add_right_comm]
            exact ihInner (depth + 1) (n + 1) hinner

/-! ## Annotated texts -/

section Text

variable (config : TapeConfig) (b : Body)

/-- The lines of a generated text. -/
theorem linesOf_listingOf (annotate : Bool) :
    linesOf (listingOf config annotate b).text =
      (listingOf config annotate b).map (fun line => line.text.toList) ++ [[]] :=
  splitOn_text (oneLine_listingOf config annotate b)

theorem filter_isRemark_listingOf (annotate : Bool) :
    (linesOf (listingOf config annotate b).text).filter isRemark =
      ((listingOf config annotate b).filter Line.isComment).map fun line => line.text.toList := by
  rw [linesOf_listingOf, List.filter_append, List.filter_map, List.filter_cons_of_neg (by decide),
    List.filter_nil, List.append_nil, isRemark_comp_text]

/-- The comments of a listing are those of its code. -/
theorem filter_isComment_listingOf (annotate : Bool) :
    (listingOf config annotate b).filter Line.isComment =
      (b.code config annotate 0).filter Line.isComment := by
  rw [listingOf, List.filter_append, List.filter_append, uncommented_header,
    uncommented_trailer config, List.append_nil, List.nil_append]

theorem filter_not_isComment_listingOf :
    (listingOf config true b).filter (fun line => !line.isComment) = listingOf config false b := by
  rw [listingOf, listingOf, List.filter_append, List.filter_append,
    (uncommented_header _).filter_not, (uncommented_trailer config).filter_not,
    Body.filter_not_isComment_code]

/-- Without its remarks, an annotated text is the plain text. -/
theorem withoutRemarks_listingOf :
    withoutRemarks (listingOf config true b).text = (listingOf config false b).text := by
  have hlines : (linesOf (listingOf config true b).text).filter (fun line => !isRemark line) =
      linesOf (listingOf config false b).text := by
    rw [linesOf_listingOf, linesOf_listingOf, List.filter_append, List.filter_map,
      ← filter_not_isComment_listingOf]
    congr 3
    funext line
    exact congrArg not line.isRemark_text
  rw [withoutRemarks, hlines, linesOf, List.intercalate_splitOn, String.ofList_toList]

end Text

/-- What is remarked about a node. -/
def Node.note : Node → String
  | .instr i => "; " ++ i.command.symbol.toString ++ " (instruction " ++ toString i.index ++ ")"
  | .loop _ openIndex closeIndex =>
      "; loop " ++ toString openIndex ++ ".." ++ toString closeIndex

theorem Node.text_comment (n : Node) : (Line.comment n.comment).text = "    " ++ n.note := by
  cases n <;> rfl

/-- **Annotation only adds remarks.** For a program without delimiters in its tree, whatever the
tape, deleting the remarks from the annotated listing gives the plain listing, which has none. The
remarks name the nodes of the program in the order of the walk, so that there is one for each
instruction and each loop. The one about the `k`-th node has `k` remarks before it, and the code of
the node directly after it. -/
theorem annotation_only_adds_remarks (g : Generator) (p : Program) (hp : p.body.DelimiterFree) :
    ∃ noted plain, (Generator.generate { g with annotate := true } p).2 = .ok noted ∧
      (Generator.generate { g with annotate := false } p).2 = .ok plain ∧
      withoutRemarks noted.text = plain.text ∧
      (linesOf plain.text).filter isRemark = [] ∧
      (linesOf noted.text).filter isRemark =
        p.nodes.map (fun node => ("    " ++ node.2.note).toList) ∧
      ((linesOf noted.text).filter isRemark).length = p.primitiveCount + p.loopCount ∧
      ∀ k depth node, p.nodes[k]? = some (depth, node) →
        ∃ front back,
          linesOf noted.text = front ++ ("    " ++ node.note).toList ::
            ((node.code g.config ((p.nodes.take k).countP fun node => node.2.isLoop)).map
              (fun line => line.text.toList) ++ back) ∧
          (front.filter isRemark).length = k := by
  have hremarks : (linesOf (listingOf g.config true p.body).text).filter isRemark =
      p.nodes.map (fun node => ("    " ++ node.2.note).toList) := by
    rw [filter_isRemark_listingOf, filter_isComment_listingOf,
      Body.filter_isComment_code g.config 0, ← p.nodes_eq, comments, List.map_map]
    apply List.map_congr_left
    intro node _
    exact congrArg String.toList node.2.text_comment
  refine ⟨_, _, Generator.generate_eq _ hp, Generator.generate_eq _ hp,
    withoutRemarks_listingOf g.config p.body, ?_, hremarks, ?_, ?_⟩
  · rw [filter_isRemark_listingOf, filter_isComment_listingOf, ← Body.filter_not_isComment_code,
      List.filter_filter]
    simp
  · rw [hremarks, List.length_map, p.length_nodes]
  · intro k depth node hk
    obtain ⟨hlt, hnode⟩ := List.getElem?_eq_some_iff.1 hk
    have hsplit : p.body.nodesFrom 0 = p.nodes.take k ++ (depth, node) :: p.nodes.drop (k + 1) := by
      rw [← p.nodes_eq, ← hnode, ← List.drop_eq_getElem_cons hlt, List.take_append_drop]
    have hcode := Body.commentStands_code g.config p.body 0 0 hsplit
    obtain ⟨front, back, hlisting, hfront⟩ :=
      (hcode.inFront (trailer g.config)).behind [] (uncommented_header g.config.length)
    refine ⟨front.map fun line => line.text.toList, back.map (fun line => line.text.toList) ++ [[]],
      ?_, ?_⟩
    · rw [linesOf_listingOf, listingOf, hlisting, ← node.text_comment, Nat.zero_add]
      simp only [List.map_append, List.map_cons, List.append_assoc, List.cons_append]
    · rw [List.filter_map, List.length_map, isRemark_comp_text, hfront, comments, List.length_map,
        List.nil_append, List.length_take]
      exact Nat.min_eq_left hlt.le

/-- A loop that counts a cell down, on a bounded tape: the second remark is inside the loop. -/
theorem annotation_of_countdown :
    let countdown : Program := { body := .loop (.instr ⟨.decrement, 1, 1⟩ .nil) 0 2 .nil }
    ∃ noted plain, (Generator.generate { annotate := true } countdown).2 = .ok noted ∧
      (Generator.generate { annotate := false } countdown).2 = .ok plain ∧
      withoutRemarks noted.text = plain.text ∧
      (linesOf noted.text).filter isRemark =
        ["    ; loop 0..2".toList, "    ; - (instruction 1)".toList] ∧
      ∃ front back, linesOf noted.text = front ++
        "    ; - (instruction 1)".toList :: "    mov r13, 1".toList :: back := by
  intro countdown
  have hnodes : countdown.nodes =
      [(0, .loop (.instr ⟨.decrement, 1, 1⟩ .nil) 0 2), (1, .instr ⟨.decrement, 1, 1⟩)] :=
    countdown.nodes_eq
  obtain ⟨noted, plain, hnoted, hplain, htexts, -, hremarks, -, hplaces⟩ :=
    annotation_only_adds_remarks {} countdown (by decide)
  obtain ⟨front, back, hlines, -⟩ := hplaces 1 1 (.instr ⟨.decrement, 1, 1⟩) (by rw [hnodes]; rfl)
  refine ⟨noted, plain, hnoted, hplain, htexts, ?_, front, _, hlines⟩
  rw [hremarks, hnodes]
  rfl

end TapeLang
