import TapeLang.Proofs.Generator.Names
import TapeLang.Proofs.Generator.Text
import TapeLang.Proofs.Nesting.Comments
import TapeLang.Proofs.Toolchain.Stages

/-!
# Reading a program back from its listing

The code of a command takes one to four lines, depending on the tape, and the codes of different
commands share lines. But in each encoding there is exactly one line that the codes of all other
commands do not have, the mark of the command (`Command.mark`): the line that changes the cell or
the pointer, the call, or the label. The fixed parts of a listing have no marks. So the commands of
a program can be read off the text of its listing (`readBack_listingOf`), in order and without
knowing the configuration.

Conversely, the listing of a program does not show where the commands stand in the text
(`Body.code_bare`). Together, a listing determines the commands of a text and nothing else of it
(`listing_determines_commands`).
-/

set_option autoImplicit false

namespace TapeLang

open Assembly

/-! ## Marks -/

/-- The line that shows a command; `n` is the number of the loop if it is a delimiter. -/
def Command.mark (n : Nat) : Command → Line
  | moveLeft => unary .dec pointer
  | moveRight => unary .inc pointer
  | increment => unary .inc cell
  | decrement => unary .dec cell
  | output => .code (.call .writeCell)
  | input => .code (.call .readCell)
  | loopOpen => .label (.loop n)
  | loopClose => .label (.loopEnd n)

/-- The marks of the commands that are no delimiters, as they are written. -/
def marks : List (String × Command) :=
  [("    dec r12", .moveLeft),
    ("    inc r12", .moveRight),
    ("    inc byte [rbx + r12]", .increment),
    ("    dec byte [rbx + r12]", .decrement),
    ("    call WRITE_CELL", .output),
    ("    call READ_CELL", .input)]

/-- The command that a line shows, if it shows one. Numbers have no `e`, so among the labels of
loops only those of ends do. -/
def Command.ofLine? (line : List Char) : Option Command :=
  if "loop_".toList.isPrefixOf line then
    some (if line.contains 'e' then loopClose else loopOpen)
  else (marks.find? fun (mark, _) => mark.toList = line).map Prod.snd

/-- The commands that the lines of a text show. -/
def readBack (text : String) : List Command :=
  (text.toList.splitOn '\n').filterMap Command.ofLine?

theorem ofLine?_loop (n : Nat) :
    Command.ofLine? (Line.label (.loop n)).text.toList = some .loopOpen := by
  have htext : (Line.label (.loop n)).text.toList =
      "loop_".toList ++ ((toString n).toList ++ ":".toList) := by
    simp only [Line.text, Name.text, String.toList_append, List.append_assoc]
  have hlacks : 'e' ∉ (Line.label (.loop n)).text.toList := by
    rw [htext, List.mem_append, List.mem_append]
    rintro (h | h | h)
    · revert h
      decide
    · cases isDigit_of_mem_toString h
    · revert h
      decide
  rw [Command.ofLine?, List.contains_eq_mem, decide_eq_false hlacks, htext]
  rfl

theorem ofLine?_loopEnd (n : Nat) :
    Command.ofLine? (Line.label (.loopEnd n)).text.toList = some .loopClose := by
  have htext : (Line.label (.loopEnd n)).text.toList =
      "loop_".toList ++ ((toString n).toList ++ ("_end".toList ++ ":".toList)) := by
    simp only [Line.text, Name.text, String.toList_append, List.append_assoc]
  have hhas : 'e' ∈ (Line.label (.loopEnd n)).text.toList := by
    rw [htext]
    exact List.mem_append_right _ (List.mem_append_right _ (List.mem_append_left _ (by decide)))
  rw [Command.ofLine?, List.contains_eq_mem, decide_eq_true hhas, htext]
  rfl

/-- The mark of a command shows that command. -/
theorem ofLine?_mark (n : Nat) (c : Command) :
    Command.ofLine? (c.mark n).text.toList = some c := by
  cases c with
  | loopOpen => exact ofLine?_loop n
  | loopClose => exact ofLine?_loopEnd n
  | moveLeft | moveRight | increment | decrement | output | input =>
      simp only [Command.mark]
      decide

/-! ## Silent lines -/

/-- Whether a line is of a kind that shows no command. -/
def isSilent : Line → Bool
  | .blank | .format | .codeSegment | .dataSegment | .entry _ | .anonymous | .comment _ => true
  | .define n _ | .label n | .bytes n _ | .reserve n _ => !Native.isLoopName n
  | .code (.binary _ _ _) | .code (.lea _ _) | .code (.jump _ _) => true
  | .code .ret | .code .syscall => true
  | .code (.unary _ (.register r)) => r != .r12
  | .code (.unary _ _) | .code (.call _) => false

/-- A line that begins with a name shows nothing, unless it is the name of a loop. -/
theorem ofLine?_name_append {n : Name} (hn : (!Native.isLoopName n) = true) (after : String) :
    Command.ofLine? (n.text ++ after).toList = none := by
  rw [String.toList_append]
  cases n with
  | loop n | loopEnd n => cases hn
  | edge e | edgeMessage e | edgeMessageLength e => cases e <;> rfl
  | _ => rfl

/-- For the code of a line, what stands in front of the operands settles the matter. -/
theorem ofLine?_code_of_isSilent {o : Operation} (h : isSilent (.code o) = true) :
    Command.ofLine? (Line.code o).text.toList = none := by
  cases o with
  | binary op dst src =>
      -- `cmp` and `cmove` begin like `call`, but the second letter tells them apart
      simp only [Line.text, Operation.text, String.toList_append]
      cases op <;> rfl
  | unary op arg =>
      cases arg with
      | register r =>
          simp only [Line.text, Operation.text, Operand.text, String.toList_append]
          cases r <;> cases h <;> cases op <;> rfl
      | value _ | byte _ | memory _ => cases h
  | lea dst a =>
      simp only [Line.text, Operation.text, String.toList_append]
      rfl
  | jump j target =>
      simp only [Line.text, Operation.text, String.toList_append]
      cases j <;> rfl
  | call n => cases h
  | ret | syscall => rfl

/-- A comment may name a command, but its line begins like no mark. -/
theorem ofLine?_comment (c : Comment) : Command.ofLine? (Line.comment c).text.toList = none := by
  cases c <;> simp only [Line.text, Comment.text, String.toList_append] <;> rfl

/-- Silent lines show no command. -/
theorem ofLine?_of_isSilent {line : Line} (h : isSilent line = true) :
    Command.ofLine? line.text.toList = none := by
  cases line with
  | blank | format | codeSegment | dataSegment | anonymous => rfl
  | comment c => exact ofLine?_comment c
  | code o => exact ofLine?_code_of_isSilent h
  | label n => exact ofLine?_name_append h _
  | entry n =>
      rw [Line.text, String.toList_append]
      rfl
  | define n d =>
      rw [Line.text, String.append_assoc]
      exact ofLine?_name_append h _
  | bytes n text =>
      rw [Line.text, String.append_assoc]
      exact ofLine?_name_append h _
  | reserve n count =>
      rw [Line.text, String.append_assoc]
      exact ofLine?_name_append h _

/-! ## What a listing shows -/

/-- The commands that the lines of a listing show. -/
def shown (listing : Listing) : List Command :=
  listing.filterMap fun line => Command.ofLine? line.text.toList

theorem readBack_text {listing : Listing} (h : ∀ line ∈ listing, OneLine line.text) :
    readBack listing.text = shown listing := by
  have hend : [[]].filterMap Command.ofLine? = [] := List.filterMap_cons_none rfl
  rw [readBack, splitOn_text h, List.filterMap_append, hend, List.append_nil, List.filterMap_map]
  rfl

theorem shown_append (a b : Listing) : shown (a ++ b) = shown a ++ shown b :=
  List.filterMap_append

theorem shown_of_isSilent {lines : Listing} (h : lines.all isSilent = true) : shown lines = [] := by
  rw [shown, List.filterMap_eq_nil_iff]
  intro line hline
  exact ofLine?_of_isSilent (List.all_eq_true.1 h line hline)

theorem shown_cons_of_isSilent {line : Line} (h : isSilent line = true) (lines : Listing) :
    shown (line :: lines) = shown lines :=
  List.filterMap_cons_none (ofLine?_of_isSilent h)

/-- The mark of a command, followed by silent lines, shows that command alone. -/
theorem shown_mark (n : Nat) (c : Command) {after : Listing} (h : after.all isSilent = true) :
    shown (c.mark n :: after) = [c] := by
  have hcons : shown (c.mark n :: after) = c :: shown after :=
    List.filterMap_cons_some (ofLine?_mark n c)
  rw [hcons, shown_of_isSilent h]

theorem shown_remark (annotate : Bool) (c : Comment) : shown (remark annotate c) = [] := by
  apply shown_of_isSilent
  cases annotate <;> rfl

/-- Checking against an edge shows nothing. -/
theorem shown_checked (config : TapeConfig) (i : Instruction) {test : Line} (j : Jump) (e : Edge)
    (htest : isSilent test = true) : shown (checked config i test j e) = [] := by
  apply shown_of_isSilent
  unfold checked
  split
  · rfl
  · rw [List.all_cons, List.all_cons, htest]
    rfl

theorem shown_moveRightLines (config : TapeConfig) :
    shown (moveRightLines config) = [.moveRight] := by
  unfold moveRightLines
  split
  · exact shown_mark 0 .moveRight rfl
  · split <;> exact shown_mark 0 .moveRight rfl

/-- In one of the encodings the pointer is moved last. -/
theorem shown_moveLeftLines (config : TapeConfig) : shown (moveLeftLines config) = [.moveLeft] := by
  unfold moveLeftLines
  split
  · exact shown_mark 0 .moveLeft rfl
  · split
    · exact shown_mark 0 .moveLeft rfl
    · rw [shown_cons_of_isSilent rfl, shown_cons_of_isSilent rfl, shown_cons_of_isSilent rfl]
      exact shown_mark 0 .moveLeft rfl

/-- **The code of an instruction shows its command, once, in every encoding.** -/
theorem shown_lines (config : TapeConfig) {i : Instruction} (hi : i.command.isDelimiter = false) :
    shown (i.lines config) = [i.command] := by
  obtain ⟨command, index, offset⟩ := i
  cases command with
  | loopOpen | loopClose => cases hi
  | output => exact shown_mark 0 .output rfl
  | input => exact shown_mark 0 .input rfl
  | moveLeft =>
      show shown (checked .. ++ _) = _
      rw [shown_append, shown_checked config _ _ _ rfl, shown_moveLeftLines]
      rfl
  | moveRight =>
      show shown (checked .. ++ _) = _
      rw [shown_append, shown_checked config _ _ _ rfl, shown_moveRightLines]
      rfl
  | increment =>
      show shown (checked .. ++ _) = _
      rw [shown_append, shown_checked config _ _ _ rfl, List.nil_append]
      exact shown_mark 0 .increment rfl
  | decrement =>
      show shown (checked .. ++ _) = _
      rw [shown_append, shown_checked config _ _ _ rfl, List.nil_append]
      exact shown_mark 0 .decrement rfl

theorem shown_loopHead (n : Nat) : shown (loopHead n) = [.loopOpen] :=
  shown_mark n .loopOpen rfl

theorem shown_loopFoot (n : Nat) : shown (loopFoot n) = [.loopClose] := by
  rw [loopFoot, shown_cons_of_isSilent rfl]
  exact shown_mark n .loopClose rfl

/-- The code of a tree shows the commands of its flat form. -/
theorem shown_code (config : TapeConfig) (annotate : Bool) {b : Body} (hb : b.DelimiterFree)
    (n : Nat) : shown (b.code config annotate n) = b.flatten.map Instruction.command := by
  induction b generalizing n with
  | nil => rfl
  | instr i rest ih =>
      rw [Body.code, shown_append, shown_append, shown_remark, shown_lines config hb.1, ih hb.2]
      rfl
  | loop inner openIndex closeIndex rest ihInner ihRest =>
      rw [Body.code, shown_append, shown_append, shown_append, shown_append, shown_remark,
        shown_loopHead, shown_loopFoot, ihInner hb.1, ihRest hb.2, Body.flatten, List.map_cons,
        List.map_append, List.map_cons]
      rfl

theorem shown_header (length : TapeLength) : shown (header length) = [] :=
  shown_of_isSilent rfl

theorem shown_trailer (config : TapeConfig) : shown (trailer config) = [] := by
  apply shown_of_isSilent
  cases hw : config.wraps with
  | true =>
      simp only [trailer, faultRoutines, dataSegment, hw, if_true]
      decide
  | false =>
      simp only [trailer, faultRoutines, dataSegment, hw, Bool.false_eq_true, if_false]
      decide

/-- **The commands of a program can be read off the text of its listing.** -/
theorem readBack_listingOf (config : TapeConfig) (annotate : Bool) {b : Body}
    (hb : b.DelimiterFree) :
    readBack (listingOf config annotate b).text = b.flatten.map Instruction.command := by
  rw [readBack_text (oneLine_listingOf config annotate b), listingOf, shown_append, shown_append,
    shown_header, shown_code config annotate hb, shown_trailer, List.append_nil, List.nil_append]

/-! ## Listings and texts -/

/-- The listing of a text shows the commands of the text. -/
theorem readBack_of_parse {source : String} {p : Program} (h : (parse source).value = .ok p)
    (config : TapeConfig) (annotate : Bool) :
    readBack (listingOf config annotate p.body).text = commandsOf source := by
  obtain ⟨hflat, -, hfree⟩ := flatten_of_nestLogged (parse_value source ▸ h)
  rw [readBack_listingOf config annotate hfree, hflat, List.map_map, ← map_command_lex]
  exact List.map_congr_left fun i _ => i.command_kept

theorem Body.loops_relabel (l : Relabelling) (b : Body) : (b.relabel l).loops = b.loops := by
  induction b with
  | nil => rfl
  | instr i rest ih => exact ih
  | loop inner openIndex closeIndex rest ihInner ihRest =>
      rw [relabel, loops, loops, ihInner, ihRest]

/-- **The code of a tree looks at no offset.** -/
theorem Body.code_bare (config : TapeConfig) (annotate : Bool) (n : Nat) (b : Body) :
    (b.relabel .bare).code config annotate n = b.code config annotate n := by
  induction b generalizing n with
  | nil => rfl
  | instr i rest ih =>
      rw [relabel, code, code, ih]
      rfl
  | loop inner openIndex closeIndex rest ihInner ihRest =>
      rw [relabel, code, code, ihInner, ihRest, loops_relabel]
      rfl

/-- Programs that differ in offsets alone have the same listing. -/
theorem listingOf_eq_of_bare {p q : Program} (h : p.bare = q.bare) (config : TapeConfig)
    (annotate : Bool) : listingOf config annotate p.body = listingOf config annotate q.body := by
  have hbody : p.body.relabel .bare = q.body.relabel .bare := congrArg Program.body h
  rw [listingOf, listingOf, ← Body.code_bare, hbody, Body.code_bare]

/-- **A listing determines the commands of a text, and nothing else of it.** Two texts that are
programs both have a listing, and the two are the same text exactly if the programs are the same
text without their comments. -/
theorem listing_determines_commands (config : TapeConfig) (annotate : Bool) {a b : String}
    {p q : Program} (hp : (parse a).value = .ok p) (hq : (parse b).value = .ok q) :
    ∃ l k, (compile a config annotate).value = .ok l ∧ (compile b config annotate).value = .ok k ∧
      (l.text = k.text ↔ stripComments a = stripComments b) := by
  refine ⟨_, _, value_compile_of_ok hp config annotate, value_compile_of_ok hq config annotate, ?_⟩
  rw [stripComments_eq_iff]
  constructor
  · -- the commands of both texts are read off the same text
    intro htext
    rw [← readBack_of_parse hp config annotate, ← readBack_of_parse hq config annotate, htext]
  · -- with the same commands the trees differ in offsets alone, which no line shows
    intro hcommands
    have hparse := parse_bare_eq hcommands
    rw [hp, hq] at hparse
    rw [listingOf_eq_of_bare (Except.ok.inj hparse)]

/-- A remark in a loop does not show in a listing with comments; a second command in it does. -/
theorem loops_and_their_listings :
    (∃ l k, (compile "[ again - ]" {} true).value = .ok l ∧ (compile "[-]" {} true).value = .ok k ∧
      l.text = k.text) ∧
    ∃ l k, (compile "[--]" {} true).value = .ok l ∧ (compile "[-]" {} true).value = .ok k ∧
      l.text ≠ k.text := by
  have hremarked : (parse "[ again - ]").value =
      .ok ⟨.loop (.instr ⟨.decrement, 1, 8⟩ .nil) 0 2 .nil, 3⟩ := by decide
  have hplain : (parse "[-]").value = .ok ⟨.loop (.instr ⟨.decrement, 1, 1⟩ .nil) 0 2 .nil, 3⟩ := by
    decide
  have htwice : (parse "[--]").value =
      .ok ⟨.loop (.instr ⟨.decrement, 1, 1⟩ (.instr ⟨.decrement, 2, 2⟩ .nil)) 0 3 .nil, 4⟩ := by
    decide
  constructor
  · obtain ⟨l, k, hl, hk, hiff⟩ := listing_determines_commands {} true hremarked hplain
    exact ⟨l, k, hl, hk, hiff.2 (by decide)⟩
  · obtain ⟨l, k, hl, hk, hiff⟩ := listing_determines_commands {} true htwice hplain
    refine ⟨l, k, hl, hk, fun htext => ?_⟩
    have hstrip := hiff.1 htext
    revert hstrip
    decide

end TapeLang
