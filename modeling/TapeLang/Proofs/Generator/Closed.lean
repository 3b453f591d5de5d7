import TapeLang.Proofs.Generator.Symbols
import TapeLang.Proofs.Nesting.Counts

/-!
# Listings are closed

A listing refers to nothing that it does not define. The code of a program refers to the names of
its own loops, to the size of the tape and to the routines of the fixed parts, and these depend on
the tape: the routines for the edges are there exactly if the tape has any. Anonymous labels stand in
the fixed parts only, each close to the jump that goes there.

So the text of a listing defines every symbol once and every symbol that it needs (`closed_text`).
-/

set_option autoImplicit false

namespace TapeLang.Assembly

open Native

/-! ## Labels -/

theorem labelled?_of_isCode {line : Line} (h : isCode line = true) :
    labelled? line = defined? line := by
  cases line with
  | blank | label n | anonymous | comment c | code o => rfl
  | format | codeSegment | dataSegment | entry n | define n d | bytes n text | reserve n count =>
      cases h

/-- The labels of the code of a tree are those of its loops. -/
theorem labels_code (config : TapeConfig) (annotate : Bool) (n : Nat) (b : Body) :
    (b.code config annotate n).filterMap labelled? = loopNames n b := by
  rw [← definitions_code config annotate n b, definitions]
  apply List.filterMap_congr
  intro line hline
  exact labelled?_of_isCode (List.all_eq_true.1 (all_isCode_code config annotate n b) line hline)

/-- The names of the routines that report faults. -/
def faultLabels (config : TapeConfig) : List Name :=
  if config.wraps then [] else Edge.all.map .edge ++ [.fault]

/-- The labels of a listing. -/
theorem labels_listingOf (config : TapeConfig) (annotate : Bool) (b : Body) :
    (listingOf config annotate b).filterMap labelled? =
      .entryPoint :: (loopNames 0 b ++ (.writeCell :: .readCell :: faultLabels config)) := by
  have htrailer : (trailer config).filterMap labelled? =
      .writeCell :: .readCell :: faultLabels config := by
    cases hw : config.wraps with
    | true =>
        simp only [trailer, faultRoutines, dataSegment, faultLabels, hw, if_true]
        rfl
    | false =>
        simp only [trailer, faultRoutines, dataSegment, faultLabels, hw, Bool.false_eq_true,
          if_false]
        rfl
  rw [listingOf, List.filterMap_append, List.filterMap_append, labels_code, htrailer]
  rfl

/-- The names of loops carry exactly the numbers from `n` on, one for every loop. -/
theorem mem_loopNames_iff {name : Name} {b : Body} {n : Nat} :
    name ∈ loopNames n b ↔
      ∃ k, n ≤ k ∧ k < n + b.loops ∧ (name = .loop k ∨ name = .loopEnd k) := by
  refine ⟨mem_loopNames, ?_⟩
  induction b generalizing n with
  | nil =>
      rintro ⟨k, hlow, hhigh, -⟩
      exact absurd hhigh (Nat.not_lt.2 hlow)
  | instr i rest ih => exact ih
  | loop inner openIndex closeIndex rest ihInner ihRest =>
      rintro ⟨k, hlow, hhigh, hname⟩
      rw [Body.loops] at hhigh
      rw [loopNames, List.mem_cons, List.mem_append, List.mem_cons]
      -- the number is the loop's own, or one of its contents, or one of what comes after it
      rcases Nat.lt_trichotomy n k with hlt | rfl | hgt
      · by_cases hinner : k < n + 1 + inner.loops
        · exact .inr (.inl (ihInner ⟨k, hlt, hinner, hname⟩))
        · exact .inr (.inr (.inr (ihRest ⟨k, by omega, by omega, hname⟩)))
      · rcases hname with hname | hname
        · exact .inl hname
        · exact .inr (.inr (.inl hname))
      · omega

/-! ## Names that are referred to -/

/-- Whether a line refers to nothing but certain names. -/
def refersTo (names : List Name) (line : Line) : Bool :=
  line.names.all fun n => names.contains n

/-- Whether a line jumps to no anonymous label and quotes nothing but digits. -/
def isDirect (line : Line) : Bool :=
  line.anonymousTargets.isEmpty && decide (Numeric line.quotes)

/-- The names that the code of instructions refers to. -/
def routineNames (config : TapeConfig) : List Name :=
  [.tapeSize, .writeCell, .readCell] ++ if config.wraps then [] else Edge.all.map .edge

/-- An instruction refers to the size of the tape and to the fixed routines only. -/
theorem all_refersTo_lines (config : TapeConfig) (i : Instruction) :
    (i.lines config).all (fun line => refersTo (routineNames config) line && isDirect line) =
      true := by
  obtain ⟨command, index, offset⟩ := i
  cases hw : config.wraps with
  | true =>
      cases command with
      | moveLeft =>
          simp only [Instruction.lines, Instruction.code?, checked, moveLeftLines, routineNames, hw]
          cases config.isPowerOfTwo <;> rfl
      | moveRight =>
          simp only [Instruction.lines, Instruction.code?, checked, moveRightLines, routineNames,
            hw]
          cases config.isPowerOfTwo <;> rfl
      | increment | decrement | output | input | loopOpen | loopClose =>
          simp only [Instruction.lines, Instruction.code?, checked, routineNames, hw]
          rfl
  | false =>
      cases command with
      | moveLeft | moveRight | increment | decrement | output | input | loopOpen | loopClose =>
          simp only [Instruction.lines, Instruction.code?, checked, moveLeftLines, moveRightLines,
            routineNames, hw]
          rfl

/-- A line of the code of a tree whose first loop has the number `n`: it refers to the names of the
loops and of the fixed routines. -/
structure CodeLine (config : TapeConfig) (n : Nat) (b : Body) (line : Line) : Prop where
  names : ∀ name ∈ line.names, name ∈ loopNames n b ∨ name ∈ routineNames config
  direct : isDirect line = true

/-- The lines around the contents of a loop refer to its own names. -/
theorem codeLine_of_loop {config : TapeConfig} {n : Nat} {inner rest : Body}
    {openIndex closeIndex : Int} {line : Line} (h : line ∈ loopHead n ++ loopFoot n) :
    CodeLine config n (.loop inner openIndex closeIndex rest) line := by
  have hlines : ∀ line ∈ loopHead n ++ loopFoot n,
      (∀ m ∈ line.names, m = .loop n ∨ m = .loopEnd n) ∧ isDirect line = true := by
    intro line hline
    simp only [loopHead, loopFoot, List.cons_append, List.nil_append, List.mem_cons,
      List.not_mem_nil, or_false] at hline
    rcases hline with rfl | rfl | rfl | rfl | rfl
    · exact ⟨fun m hm => absurd hm List.not_mem_nil, rfl⟩
    · exact ⟨fun m hm => absurd hm List.not_mem_nil, rfl⟩
    · -- the head of a loop jumps to its end
      exact ⟨fun m hm => .inr (List.mem_singleton.1 hm), rfl⟩
    · -- and the foot jumps to its head
      exact ⟨fun m hm => .inl (List.mem_singleton.1 hm), rfl⟩
    · exact ⟨fun m hm => absurd hm List.not_mem_nil, rfl⟩
  obtain ⟨hnames, hdirect⟩ := hlines line h
  refine ⟨fun name hname => .inl ?_, hdirect⟩
  exact mem_loopNames_iff.2 ⟨n, Nat.le_refl n, by rw [Body.loops]; omega, hnames name hname⟩

/-- **The code of a tree refers to the names of its loops and of the fixed routines.** -/
theorem codeLine_of_mem {config : TapeConfig} {annotate : Bool} {n : Nat} {b : Body} {line : Line}
    (h : line ∈ b.code config annotate n) : CodeLine config n b line := by
  have hremark : ∀ {c : Comment} {n : Nat} {b : Body}, line ∈ remark annotate c →
      CodeLine config n b line := by
    intro c n b hline
    have hcomment : line = .comment c := by
      cases annotate with
      | true => exact List.mem_singleton.1 hline
      | false => cases hline
    subst hcomment
    exact ⟨fun name hname => absurd hname List.not_mem_nil, rfl⟩
  induction b generalizing n with
  | nil => cases h
  | instr i rest ih =>
      rw [Body.code, List.mem_append, List.mem_append] at h
      rcases h with h | h | h
      · exact hremark h
      · have hline := List.all_eq_true.1 (all_refersTo_lines config i) line h
        rw [Bool.and_eq_true] at hline
        refine ⟨fun name hname => .inr ?_, hline.2⟩
        exact List.contains_iff_mem.1 (List.all_eq_true.1 hline.1 name hname)
      · exact ⟨(ih h).names, (ih h).direct⟩
  | loop inner openIndex closeIndex rest ihInner ihRest =>
      rw [Body.code, List.mem_append, List.mem_append, List.mem_append, List.mem_append] at h
      rcases h with h | h | h | h | h
      · exact hremark h
      · exact codeLine_of_loop (List.mem_append_left _ h)
      · refine ⟨fun name hname => ((ihInner h).names name hname).imp_left ?_, (ihInner h).direct⟩
        exact fun hmem => List.mem_cons_of_mem _ (List.mem_append_left _ hmem)
      · exact codeLine_of_loop (List.mem_append_right _ h)
      · refine ⟨fun name hname => ((ihRest h).names name hname).imp_left ?_, (ihRest h).direct⟩
        exact fun hmem =>
          List.mem_cons_of_mem _ (List.mem_append_right _ (List.mem_cons_of_mem _ hmem))

/-- The names that the fixed parts of a listing define. -/
def fixedNames (config : TapeConfig) : List Name :=
  definitions (header config.length) ++ definitions (trailer config)

/-- The fixed parts define what they refer to, and what the code of instructions refers to. -/
theorem fixed_closed (config : TapeConfig) :
    (header config.length ++ trailer config).all (refersTo (fixedNames config)) = true ∧
      (routineNames config).all (fun n => (fixedNames config).contains n) = true := by
  have hheader : definitions (header config.length) = definitions (header .truth) := rfl
  have hnames : (header config.length).all (refersTo (fixedNames config)) =
      (header .truth).all (refersTo (fixedNames config)) := rfl
  rw [List.all_append, hnames]
  cases hw : config.wraps with
  | true =>
      simp only [fixedNames, hheader, trailer, faultRoutines, dataSegment, routineNames, hw,
        if_true]
      decide
  | false =>
      simp only [fixedNames, hheader, trailer, faultRoutines, dataSegment, routineNames, hw,
        Bool.false_eq_true, if_false]
      decide

/-- A listing defines the names of the fixed parts and of the loops. -/
theorem mem_definitions_listingOf {config : TapeConfig} {annotate : Bool} {b : Body} {name : Name} :
    name ∈ definitions (listingOf config annotate b) ↔
      name ∈ loopNames 0 b ∨ name ∈ fixedNames config := by
  rw [listingOf, definitions_append, definitions_append, definitions_code, fixedNames,
    List.mem_append, List.mem_append, List.mem_append]
  exact or_left_comm

/-- **A listing defines every name that it refers to.** -/
theorem names_listingOf {config : TapeConfig} {annotate : Bool} {b : Body} {line : Line}
    (h : line ∈ listingOf config annotate b) {name : Name} (hname : name ∈ line.names) :
    name ∈ definitions (listingOf config annotate b) := by
  obtain ⟨hfixed, hroutines⟩ := fixed_closed config
  have hdefined : line ∈ header config.length ++ trailer config → name ∈ fixedNames config := by
    intro hline
    have hrefers := List.all_eq_true.1 hfixed line hline
    exact List.contains_iff_mem.1 (List.all_eq_true.1 hrefers name hname)
  rw [mem_definitions_listingOf]
  rw [listingOf, List.mem_append, List.mem_append] at h
  rcases h with h | h | h
  · exact .inr (hdefined (List.mem_append_left _ h))
  · rcases (codeLine_of_mem h).names name hname with h | h
    · exact .inl h
    · exact .inr (List.contains_iff_mem.1 (List.all_eq_true.1 hroutines name h))
  · exact .inr (hdefined (List.mem_append_right _ h))

/-! ## Anonymous labels -/

/-- Whether every jump to an anonymous label finds one, with one above the listing or not. -/
def anchored (above : Bool) : Listing → Bool
  | [] => true
  | line :: rest =>
      (!line.anonymousTargets.contains "@f" || rest.contains .anonymous) &&
        (!line.anonymousTargets.contains "@b" || above) &&
        anchored (above || line == .anonymous) rest

theorem anchored_append {front rest : Listing} (hfront : front.all isDirect = true)
    (hrest : ∀ above, anchored above rest = true) (above : Bool) :
    anchored above (front ++ rest) = true := by
  induction front generalizing above with
  | nil => exact hrest above
  | cons line front ih =>
      rw [List.all_cons, Bool.and_eq_true] at hfront
      have hnone : line.anonymousTargets = [] := by
        have hdirect := hfront.1
        rw [isDirect, Bool.and_eq_true, List.isEmpty_iff] at hdirect
        exact hdirect.1
      rw [List.cons_append, anchored, hnone, ih hfront.2]
      rfl

/-- Where a jump to an anonymous label goes. -/
theorem anonymous_of_anchored {listing : Listing} {above : Bool} (h : anchored above listing = true)
    {front rest : Listing} {line : Line} (hsplit : listing = front ++ line :: rest) :
    ("@f" ∈ line.anonymousTargets → .anonymous ∈ rest) ∧
      ("@b" ∈ line.anonymousTargets → above = true ∨ .anonymous ∈ front) := by
  induction front generalizing listing above with
  | nil =>
      subst hsplit
      simp only [List.nil_append, anchored, Bool.and_eq_true, Bool.or_eq_true, Bool.not_eq_true',
        List.contains_eq_mem, decide_eq_false_iff_not, decide_eq_true_eq] at h
      obtain ⟨⟨hforward, hbackward⟩, -⟩ := h
      exact ⟨fun hf => hforward.resolve_left (not_not_intro hf),
        fun hb => .inl (hbackward.resolve_left (not_not_intro hb))⟩
  | cons first front ih =>
      subst hsplit
      rw [List.cons_append, anchored, Bool.and_eq_true] at h
      obtain ⟨hforward, hbackward⟩ := ih h.2 rfl
      refine ⟨hforward, fun hb => ?_⟩
      rcases hbackward hb with habove | hfront
      · rw [Bool.or_eq_true, beq_iff_eq] at habove
        rcases habove with habove | rfl
        · exact .inl habove
        · exact .inr List.mem_cons_self
      · exact .inr (List.mem_cons_of_mem _ hfront)

/-- Whether a line that is an instruction quotes nothing but digits. -/
def quotesDigits : Line → Bool
  | .code o => decide (Numeric o.quotes)
  | _ => true

/-- The parts after the code of a program: jumps to anonymous labels find them, whatever stands
above, and what instructions quote are digits. -/
theorem anchored_trailer (config : TapeConfig) :
    (∀ above, anchored above (trailer config) = true) ∧
      (trailer config).all quotesDigits = true := by
  cases hw : config.wraps with
  | true =>
      simp only [trailer, faultRoutines, dataSegment, hw, if_true]
      decide
  | false =>
      simp only [trailer, faultRoutines, dataSegment, hw, Bool.false_eq_true, if_false]
      decide

theorem all_isDirect_header (length : TapeLength) : (header length).all isDirect = true := rfl

/-- **Every jump to an anonymous label of a listing finds one.** -/
theorem anchored_listingOf (config : TapeConfig) (annotate : Bool) (b : Body) :
    anchored false (listingOf config annotate b) = true := by
  apply anchored_append (all_isDirect_header config.length)
  apply anchored_append
  · rw [List.all_eq_true]
    exact fun line hline => (codeLine_of_mem hline).direct
  · exact (anchored_trailer config).1

/-- An instruction of a listing quotes nothing but digits. -/
theorem numeric_listingOf {config : TapeConfig} {annotate : Bool} {b : Body} {o : Operation}
    (h : .code o ∈ listingOf config annotate b) : Numeric o.quotes := by
  have hdirect : isDirect (.code o) = true → Numeric o.quotes := by
    intro hline
    rw [isDirect, Bool.and_eq_true] at hline
    exact of_decide_eq_true hline.2
  rw [listingOf, List.mem_append, List.mem_append] at h
  rcases h with h | h | h
  · exact hdirect (List.all_eq_true.1 (all_isDirect_header config.length) _ h)
  · exact hdirect (codeLine_of_mem h).direct
  · exact of_decide_eq_true (List.all_eq_true.1 (anchored_trailer config).2 _ h)

/-! ## Closed texts -/

/-- The names of the four routines for faults. -/
def faultRoutineSymbols : List String :=
  ["POINTER_UNDERFLOW", "POINTER_OVERFLOW", "CELL_UNDERFLOW", "CELL_OVERFLOW"]

/-- What the text of a listing defines exactly if the tape is bounded. -/
def boundedSymbols : List String :=
  faultRoutineSymbols ++ ["FAULT", "DIGITS"] ++
    faultRoutineSymbols.flatMap fun s => ["MSG_" ++ s, "MSG_" ++ s ++ "_LEN"]

/-- The labels that do not belong to a loop. -/
def fixedLabels (policy : Policy) : List String :=
  ["main", "WRITE_CELL", "READ_CELL"] ++
    if policy = .bounded then faultRoutineSymbols ++ ["FAULT"] else []

/-- A reference finds its symbol among those of the text, or its anonymous label above or below. -/
def Resolves (symbols : List String) (above below : List (List Char)) (reference : String) : Prop :=
  if reference = "@f" then "@@:".toList ∈ below
  else if reference = "@b" then "@@:".toList ∈ above
  else reference ∈ symbols

/-- The text of a listing for a number of loops defines every symbol once, and every symbol that it
needs. -/
structure ClosedText (policy : Policy) (loops : Nat) (text : String) : Prop where
  symbols_nodup : (symbolsIn text).Nodup
  labels_nodup : (labelsIn text).Nodup
  mem_labels : ∀ s, s ∈ labelsIn text ↔ s ∈ fixedLabels policy ∨
    ∃ n < loops, s = "loop_" ++ toString n ∨ s = "loop_" ++ toString n ++ "_end"
  resolves : ∀ above line below, linesOf text = above ++ line :: below →
    ∀ reference ∈ referencesOf line, Resolves (symbolsIn text) above below reference
  tape : "TAPE" ∈ symbolsIn text ∧ "TAPE_SIZE" ∈ symbolsIn text
  bounded : ∀ s ∈ boundedSymbols, s ∈ symbolsIn text ↔ policy = .bounded

/-- The labels of a text are among its symbols. -/
theorem labels_sublist (listing : Listing) :
    (listing.filterMap labelled?).Sublist (definitions listing) := by
  induction listing with
  | nil => exact .slnil
  | cons line listing ih =>
      cases line with
      | label n => exact ih.cons_cons n
      | define n d => exact ih.cons n
      | bytes n text => exact ih.cons n
      | reserve n count => exact ih.cons n
      | blank | format | codeSegment | dataSegment | entry n | anonymous | comment c | code o =>
          exact ih

/-- The lines of a text are those of its listing, and an empty one. -/
theorem split_lines {listing : Listing} {above below : List (List Char)} {line : List Char}
    (h : listing.map (fun l => l.text.toList) ++ [[]] = above ++ line :: below) :
    line = [] ∨ ∃ front l rest, listing = front ++ l :: rest ∧
      above = front.map (fun l => l.text.toList) ∧ line = l.text.toList ∧
      below = rest.map (fun l => l.text.toList) ++ [[]] := by
  induction above generalizing listing with
  | nil =>
      cases listing with
      | nil => exact .inl (List.cons.inj h).1.symm
      | cons l rest =>
          obtain ⟨hline, hbelow⟩ := List.cons.inj h
          exact .inr ⟨[], l, rest, rfl, rfl, hline.symm, hbelow.symm⟩
  | cons first above ih =>
      cases listing with
      | nil => simp at h
      | cons l rest =>
          obtain ⟨hfirst, hrest⟩ := List.cons.inj h
          rcases ih hrest with hline | ⟨front, l', rest', rfl, rfl, hline, hbelow⟩
          · exact .inl hline
          · exact .inr ⟨l :: front, l', rest', rfl, by rw [← hfirst]; rfl, hline, hbelow⟩

theorem mem_anonymousTargets {line : Line} {s : String} (h : s ∈ line.anonymousTargets) :
    s = "@f" ∨ s = "@b" := by
  cases line with
  | code o =>
      cases o with
      | jump j target =>
          cases target with
          | name n => cases h
          | forward => exact .inl (List.mem_singleton.1 h)
          | backward => exact .inr (List.mem_singleton.1 h)
      | binary op dst src | unary op arg | lea dst a | call n | ret | syscall => cases h
  | blank | format | codeSegment | dataSegment | entry n | define n d | label n | anonymous
  | comment c | bytes n text | reserve n count => cases h

theorem Name.text_ne_anonymous (n : Name) : n.text ≠ "@f" ∧ n.text ≠ "@b" := by
  have hat : '@' ∉ n.text.toList := by
    intro hmem
    cases n.isSymbolChar_text '@' hmem
  constructor
  · intro h
    rw [h] at hat
    exact hat (by decide)
  · intro h
    rw [h] at hat
    exact hat (by decide)

section

variable (config : TapeConfig) (annotate : Bool) (b : Body)

/-- The symbols of the text of a listing are spelled as its names. -/
theorem mem_symbolsIn_listingOf {name : Name} :
    name.text ∈ symbolsIn (listingOf config annotate b).text ↔
      name ∈ loopNames 0 b ∨ name ∈ fixedNames config := by
  rw [symbolsIn_text (oneLine_listingOf config annotate b),
    List.mem_map_of_injective Name.text_injective, mem_definitions_listingOf]

/-- Every reference in the text of a listing finds what it refers to. -/
theorem resolves_listingOf {above below : List (List Char)} {line : List Char}
    (hsplit : linesOf (listingOf config annotate b).text = above ++ line :: below)
    {reference : String} (href : reference ∈ referencesOf line) :
    Resolves (symbolsIn (listingOf config annotate b).text) above below reference := by
  rw [linesOf, splitOn_text (oneLine_listingOf config annotate b)] at hsplit
  rcases split_lines hsplit with rfl | ⟨front, l, rest, hlisting, rfl, rfl, rfl⟩
  · cases href
  · have hmem : l ∈ listingOf config annotate b := by
      rw [hlisting]
      exact List.mem_append_right _ List.mem_cons_self
    rw [referencesOf_text (fun o ho => numeric_listingOf (ho ▸ hmem)), List.mem_append] at href
    rcases href with href | href
    · obtain ⟨name, hname, rfl⟩ := List.mem_map.1 href
      obtain ⟨hforward, hbackward⟩ := name.text_ne_anonymous
      rw [Resolves, if_neg hforward, if_neg hbackward, mem_symbolsIn_listingOf]
      exact mem_definitions_listingOf.1 (names_listingOf hmem hname)
    · obtain ⟨hforward, hbackward⟩ :=
        anonymous_of_anchored (anchored_listingOf config annotate b) hlisting
      have hlabel : ∀ {lines : Listing}, .anonymous ∈ lines →
          "@@:".toList ∈ lines.map fun l => l.text.toList := by
        intro lines hline
        exact List.mem_map_of_mem (f := fun l : Line => l.text.toList) hline
      rcases mem_anonymousTargets href with rfl | rfl
      · rw [Resolves, if_pos rfl]
        exact List.mem_append_left _ (hlabel (hforward href))
      · rw [Resolves, if_neg (by decide), if_pos rfl]
        exact hlabel ((hbackward href).resolve_left (by decide))

/-- The names that belong to faults. -/
def boundedNames : List Name :=
  Edge.all.map .edge ++ [.fault, .digits] ++
    Edge.all.flatMap fun e => [.edgeMessage e, .edgeMessageLength e]

/-- The fixed parts always define the tape, and the names that belong to faults if there can be
any. -/
theorem mem_fixedNames :
    Name.tape ∈ fixedNames config ∧ Name.tapeSize ∈ fixedNames config ∧
      ∀ name ∈ boundedNames, isLoopName name = false ∧
        (name ∈ fixedNames config ↔ config.wraps = false) := by
  have hheader : definitions (header config.length) = definitions (header .truth) := rfl
  cases hw : config.wraps with
  | true =>
      simp only [fixedNames, hheader, trailer, faultRoutines, dataSegment, hw, if_true]
      decide
  | false =>
      simp only [fixedNames, hheader, trailer, faultRoutines, dataSegment, hw, Bool.false_eq_true,
        if_false]
      decide

/-- The labels of the text of a listing. -/
theorem mem_labelsIn_listingOf {s : String} :
    s ∈ labelsIn (listingOf config annotate b).text ↔ s ∈ fixedLabels config.policy ∨
      ∃ n < b.loops, s = "loop_" ++ toString n ∨ s = "loop_" ++ toString n ++ "_end" := by
  have hfixed : fixedLabels config.policy =
      (Name.entryPoint :: .writeCell :: .readCell :: faultLabels config).map Name.text := by
    unfold fixedLabels faultLabels TapeConfig.wraps
    cases config.policy <;> rfl
  have hloops : s ∈ (loopNames 0 b).map Name.text ↔
      ∃ n < b.loops, s = "loop_" ++ toString n ∨ s = "loop_" ++ toString n ++ "_end" := by
    constructor
    · intro h
      obtain ⟨name, hname, rfl⟩ := List.mem_map.1 h
      obtain ⟨k, -, hk, rfl | rfl⟩ := mem_loopNames hname
      · exact ⟨k, by omega, .inl rfl⟩
      · exact ⟨k, by omega, .inr rfl⟩
    · rintro ⟨k, hk, hs⟩
      have hk' : k < 0 + b.loops := by omega
      rcases hs with rfl | rfl
      · exact List.mem_map.2
          ⟨.loop k, mem_loopNames_iff.2 ⟨k, Nat.zero_le k, hk', .inl rfl⟩, rfl⟩
      · exact List.mem_map.2
          ⟨.loopEnd k, mem_loopNames_iff.2 ⟨k, Nat.zero_le k, hk', .inr rfl⟩, rfl⟩
  rw [labelsIn_text (oneLine_listingOf config annotate b), labels_listingOf, hfixed, ← hloops]
  simp only [List.map_cons, List.map_append, List.mem_cons, List.mem_append]
  tauto

/-- **The text of a listing is closed.** -/
theorem closed_text :
    ClosedText config.policy b.loops (listingOf config annotate b).text := by
  have hsymbols := symbolsIn_text (oneLine_listingOf config annotate b)
  have hlabels := labelsIn_text (oneLine_listingOf config annotate b)
  have hnodup := nodup_definitions config annotate b
  obtain ⟨htape, hsize, hbounded⟩ := mem_fixedNames config
  refine ⟨?_, ?_, fun s => mem_labelsIn_listingOf config annotate b, ?_, ⟨?_, ?_⟩, ?_⟩
  · rw [hsymbols]
    exact hnodup.map Name.text_injective
  · rw [hlabels]
    exact (hnodup.sublist (labels_sublist _)).map Name.text_injective
  · intro above line below hsplit reference href
    exact resolves_listingOf config annotate b hsplit href
  · exact (mem_symbolsIn_listingOf config annotate b).2 (.inr htape)
  · exact (mem_symbolsIn_listingOf config annotate b).2 (.inr hsize)
  · intro s hs
    have hspelled : boundedSymbols = boundedNames.map Name.text := rfl
    rw [hspelled] at hs
    obtain ⟨name, hname, rfl⟩ := List.mem_map.1 hs
    obtain ⟨hloop, hiff⟩ := hbounded name hname
    have hnot : name ∉ loopNames 0 b := by
      intro hmem
      rw [isLoopName_of_mem hmem] at hloop
      cases hloop
    rw [mem_symbolsIn_listingOf, or_iff_right hnot, hiff]
    unfold TapeConfig.wraps
    cases config.policy <;> decide

end

end TapeLang.Assembly
