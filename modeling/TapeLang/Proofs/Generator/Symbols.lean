import Mathlib.Data.List.Nodup
import TapeLang.Proofs.Generator.Names
import TapeLang.Proofs.Generator.Text

/-!
# The symbols of a text

An assembler reads the text of a listing, and knows names only by their spelling. A line that begins
with a symbol gives it a meaning, as a label, as a constant or as a place in the data; an indented
line is an instruction, and the words after its mnemonic are what it works on. `symbolsIn` and
`labelsIn` read what a text defines, and `referencesOf` what an instruction refers to.

The spelling of names is injective (`Name.text_injective`): numbers are told apart by their digits,
and the end of a loop by its last letter. So a text defines the names of its listing
(`symbolsIn_text`, `labelsIn_text`), and an instruction refers to its own names
(`referencesOf_text`).
-/

set_option autoImplicit false

namespace TapeLang.Assembly

open Native (definitions defined?)

/-! ## Reading definitions -/

/-- The lines of a text, with an empty one after the last newline. -/
def linesOf (text : String) : List (List Char) :=
  text.toList.splitOn '\n'

/-- Symbols are spelled with letters, digits and underscores. -/
def isSymbolChar (c : Char) : Bool :=
  c.isAlphanum || c == '_'

/-- The symbol that a line begins with, if what comes after it passes a test. -/
def symbolBefore? (test : List Char → Bool) (line : List Char) : Option String :=
  let symbol := line.takeWhile isSymbolChar
  if !symbol.isEmpty && test (line.dropWhile isSymbolChar) then some (.ofList symbol) else none

/-- A label ends with a colon. -/
def isLabelMark (rest : List Char) : Bool :=
  rest == [':']

/-- A definition goes on with a colon, an equals sign, or a directive for data. -/
def isDefinitionMark (rest : List Char) : Bool :=
  isLabelMark rest || [" = ", " db ", " rb "].any fun mark => mark.toList.isPrefixOf rest

/-- The labels of a text, in order. -/
def labelsIn (text : String) : List String :=
  (linesOf text).filterMap (symbolBefore? isLabelMark)

/-- The symbols that a text defines, in order. -/
def symbolsIn (text : String) : List String :=
  (linesOf text).filterMap (symbolBefore? isDefinitionMark)

/-! ## Reading references -/

/-- Whether a character is part of a word. Anonymous labels are spelled with `@`. -/
def isWordChar (c : Char) : Bool :=
  isSymbolChar c || c == '@'

/-- The words of a line: as many characters of words in a row as there are. -/
def words (chars : List Char) : List (List Char) :=
  (chars.splitOnP fun c => !isWordChar c).filter fun w => !w.isEmpty

/-- The words that are no symbols: registers, and the word for the width of a byte. -/
def reservedWords : List String :=
  ["rax", "rbx", "rcx", "rdx", "rsi", "r12", "r13", "eax", "ecx", "edx", "edi", "dl", "byte"]

/-- Whether a word refers to something, and is neither reserved nor a number. -/
def isReference (word : List Char) : Bool :=
  !reservedWords.contains (.ofList word) && !word.head?.any Char.isDigit

/-- The references among words. -/
def references (ws : List (List Char)) : List String :=
  (ws.filter isReference).map String.ofList

/-- What a line refers to if it is an instruction: its words after the mnemonic, as far as they are
references. Instructions are indented, and so are comments. -/
def referencesOf (line : List Char) : List String :=
  if line.head? = some ' ' && (line.dropWhile (· == ' ')).head? != some ';' then
    references (words line).tail
  else []

/-! ## The spelling of names -/

theorem isSymbolChar_of_isDigit {c : Char} (h : c.isDigit = true) : isSymbolChar c = true := by
  simp [isSymbolChar, Char.isAlphanum, h]

theorem isSymbolChar_toString (n : Nat) : ∀ c ∈ (toString n).toList, isSymbolChar c = true :=
  fun _ hc => isSymbolChar_of_isDigit (isDigit_of_mem_toString hc)

theorem toList_toString_ne_nil (n : Nat) : (toString n).toList ≠ [] := by
  rw [Nat.toString_eq_repr, Nat.toList_repr]
  exact Nat.toDigits_ne_nil

namespace Name

/-- The names that carry no number. -/
def fixed : List Name :=
  [sysRead, sysWrite, sysExit, stdin, stdout, stderr, exitSuccess, exitFault, tapeSize, entryPoint,
    writeCell, readCell, fault, digits, tape] ++
    (Edge.all.map edge ++ (Edge.all.map edgeMessage ++ Edge.all.map edgeMessageLength))

theorem mem_fixed_or_loop (n : Name) :
    n ∈ fixed ∨ (∃ k, n = loop k) ∨ ∃ k, n = loopEnd k := by
  cases n with
  | loop k => exact .inr (.inl ⟨k, rfl⟩)
  | loopEnd k => exact .inr (.inr ⟨k, rfl⟩)
  | edge e | edgeMessage e | edgeMessageLength e => cases e <;> exact .inl (by decide)
  | _ => exact .inl (by decide)

/-- Names without a number are symbols, and none begins as a loop's name does. -/
theorem spelling_fixed : ∀ n ∈ fixed,
    n.text.toList.all isSymbolChar = true ∧ n.text.toList.head?.any (· != 'l') = true ∧
      isReference n.text.toList = true := by
  decide

theorem nodup_text_fixed : (fixed.map fun n => n.text.toList).Nodup := by
  decide

theorem toList_text_loop (k : Nat) :
    (loop k).text.toList = ['l', 'o', 'o', 'p', '_'] ++ (toString k).toList := by
  rw [text, String.toList_append]
  rfl

theorem toList_text_loopEnd (k : Nat) :
    (loopEnd k).text.toList = (loop k).text.toList ++ ['_', 'e', 'n', 'd'] := by
  show ((loop k).text ++ "_end").toList = _
  rw [String.toList_append]
  rfl

/-- Names are symbols. -/
theorem isSymbolChar_text (n : Name) : ∀ c ∈ n.text.toList, isSymbolChar c = true := by
  have hloop : ∀ k, ∀ c ∈ (loop k).text.toList, isSymbolChar c = true := by
    intro k
    rw [toList_text_loop]
    exact List.forall_mem_append.2 ⟨List.all_eq_true.1 (by decide), isSymbolChar_toString k⟩
  rcases n.mem_fixed_or_loop with hn | ⟨k, rfl⟩ | ⟨k, rfl⟩
  · exact List.all_eq_true.1 (spelling_fixed n hn).1
  · exact hloop k
  · rw [toList_text_loopEnd]
    exact List.forall_mem_append.2 ⟨hloop k, List.all_eq_true.1 (by decide)⟩

theorem toList_text_ne_nil (n : Name) : n.text.toList ≠ [] := by
  rcases n.mem_fixed_or_loop with hn | ⟨k, rfl⟩ | ⟨k, rfl⟩
  · intro hnil
    have hhead := (spelling_fixed n hn).2.1
    rw [hnil] at hhead
    cases hhead
  · simp [toList_text_loop]
  · simp [toList_text_loopEnd]

/-- A name without a number is not spelled as one with a number. -/
theorem head?_text_of_mem_fixed {n : Name} (hn : n ∈ fixed) : n.text.toList.head? ≠ some 'l' := by
  intro hhead
  have hne := (spelling_fixed n hn).2.1
  rw [hhead] at hne
  cases hne

/-- The number of a loop ends with a digit, and its end with a letter. -/
theorem text_loop_ne_loopEnd (k l : Nat) : (loop k).text.toList ≠ (loopEnd l).text.toList := by
  intro h
  have hmem : (loop k).text.toList.getLast? = some 'd' := by
    rw [h, toList_text_loopEnd]
    simp
  rw [toList_text_loop, List.getLast?_append_of_ne_nil _ (toList_toString_ne_nil k)] at hmem
  have hdigit := isDigit_of_mem_toString (List.mem_of_getLast? hmem)
  cases hdigit

theorem text_loop_inj {k l : Nat} (h : (loop k).text.toList = (loop l).text.toList) : k = l := by
  rw [toList_text_loop, toList_text_loop] at h
  have hdigits := List.append_cancel_left h
  rw [Nat.toString_eq_repr, Nat.toString_eq_repr, Nat.toList_repr, Nat.toList_repr] at hdigits
  -- the digits can be read back
  calc k = Nat.ofDigitChars 10 (Nat.toDigits 10 k) 0 := Nat.ofDigitChars_ten_toDigits.symm
    _ = Nat.ofDigitChars 10 (Nat.toDigits 10 l) 0 := by rw [hdigits]
    _ = l := Nat.ofDigitChars_ten_toDigits

/-- **Different names are spelled differently.** -/
theorem text_injective : Function.Injective Name.text := by
  intro a b hab
  have h : a.text.toList = b.text.toList := congrArg String.toList hab
  have hhead : ∀ k, (loop k).text.toList.head? = some 'l' ∧
      (loopEnd k).text.toList.head? = some 'l' := by
    intro k
    rw [toList_text_loopEnd, toList_text_loop]
    exact ⟨rfl, rfl⟩
  -- the first letter tells names with and without a number apart, and the last one the two names of
  -- a loop
  rcases a.mem_fixed_or_loop with ha | ⟨k, rfl⟩ | ⟨k, rfl⟩ <;>
    rcases b.mem_fixed_or_loop with hb | ⟨l, rfl⟩ | ⟨l, rfl⟩
  · exact List.inj_on_of_nodup_map nodup_text_fixed ha hb h
  · exact absurd (h ▸ (hhead l).1) (head?_text_of_mem_fixed ha)
  · exact absurd (h ▸ (hhead l).2) (head?_text_of_mem_fixed ha)
  · exact absurd (h ▸ (hhead k).1) (head?_text_of_mem_fixed hb)
  · rw [text_loop_inj h]
  · exact absurd h (text_loop_ne_loopEnd k l)
  · exact absurd (h ▸ (hhead k).2) (head?_text_of_mem_fixed hb)
  · exact absurd h.symm (text_loop_ne_loopEnd l k)
  · rw [toList_text_loopEnd, toList_text_loopEnd] at h
    rw [text_loop_inj (List.append_cancel_right h)]

end Name

/-! ## What a line defines -/

/-- A name at the beginning of a line is read as a whole. -/
theorem symbolBefore?_name {test : List Char → Bool} (n : Name) {c : Char}
    (hc : isSymbolChar c = false) (rest : List Char) :
    symbolBefore? test (n.text.toList ++ c :: rest) =
      if test (c :: rest) then some n.text else none := by
  have hstop : ¬ isSymbolChar c = true := by simp [hc]
  have hnonempty : n.text.toList.isEmpty = false := by
    simpa using n.toList_text_ne_nil
  simp only [symbolBefore?, List.takeWhile_append_of_pos n.isSymbolChar_text,
    List.dropWhile_append_of_pos n.isSymbolChar_text, List.takeWhile_cons_of_neg hstop,
    List.dropWhile_cons_of_neg hstop, List.append_nil, hnonempty, String.ofList_toList]
  rfl

/-- A name after a blank marks no definition, for it has no second blank. -/
theorem isDefinitionMark_blank_name (n : Name) :
    isDefinitionMark (' ' :: n.text.toList) = false := by
  have hblank : ' ' ∉ n.text.toList := by
    intro hmem
    cases n.isSymbolChar_text ' ' hmem
  have hmark : ∀ {m : List Char}, ' ' ∈ m →
      (' ' :: m).isPrefixOf (' ' :: n.text.toList) = false := by
    intro m hmem
    rw [Bool.eq_false_iff, ne_eq, List.isPrefixOf_iff_prefix, List.cons_prefix_cons]
    rintro ⟨-, hstart⟩
    exact hblank (hstart.subset hmem)
  have hequals : " = ".toList.isPrefixOf (' ' :: n.text.toList) = false :=
    hmark (m := ['=', ' ']) (by decide)
  have hbytes : " db ".toList.isPrefixOf (' ' :: n.text.toList) = false :=
    hmark (m := ['d', 'b', ' ']) (by decide)
  have hroom : " rb ".toList.isPrefixOf (' ' :: n.text.toList) = false :=
    hmark (m := ['r', 'b', ' ']) (by decide)
  rw [isDefinitionMark, List.any_cons, List.any_cons, List.any_cons, hequals, hbytes, hroom]
  rfl

/-- The label that a line is. -/
def labelled? : Line → Option Name
  | .label n => some n
  | _ => none

/-- What a line of a text defines is what the line defines. -/
theorem symbolBefore?_text (line : Line) :
    symbolBefore? isDefinitionMark line.text.toList = (defined? line).map Name.text ∧
      symbolBefore? isLabelMark line.text.toList = (labelled? line).map Name.text := by
  cases line with
  | blank | format | codeSegment | dataSegment | anonymous => exact ⟨rfl, rfl⟩
  | entry n =>
      simp only [Line.text, String.toList_append]
      have hrest : ∀ {test : List Char → Bool}, symbolBefore? test
          ("entry ".toList ++ n.text.toList) =
            if test (' ' :: n.text.toList) then some "entry" else none := rfl
      rw [hrest, hrest, isDefinitionMark_blank_name]
      exact ⟨rfl, rfl⟩
  | define n d =>
      simp only [Line.text, String.toList_append, List.append_assoc]
      constructor <;> exact symbolBefore?_name n (by decide) _
  | label n =>
      simp only [Line.text, String.toList_append]
      constructor <;> exact symbolBefore?_name n (by decide) _
  | comment c =>
      simp only [Line.text, String.toList_append]
      exact ⟨rfl, rfl⟩
  | code o =>
      simp only [Line.text, String.toList_append]
      exact ⟨rfl, rfl⟩
  | bytes n text =>
      simp only [Line.text, String.toList_append, List.append_assoc]
      constructor <;> exact symbolBefore?_name n (by decide) _
  | reserve n count =>
      simp only [Line.text, String.toList_append, List.append_assoc]
      constructor <;> exact symbolBefore?_name n (by decide) _

/-- **A text defines the names that its listing defines.** -/
theorem symbolsIn_text {listing : Listing} (h : ∀ line ∈ listing, OneLine line.text) :
    symbolsIn listing.text = (definitions listing).map Name.text := by
  rw [symbolsIn, linesOf, splitOn_text h, List.filterMap_append, List.filterMap_map, definitions,
    List.map_filterMap]
  exact (List.append_nil _).trans (List.filterMap_congr fun line _ => (symbolBefore?_text line).1)

theorem labelsIn_text {listing : Listing} (h : ∀ line ∈ listing, OneLine line.text) :
    labelsIn listing.text = (listing.filterMap labelled?).map Name.text := by
  rw [labelsIn, linesOf, splitOn_text h, List.filterMap_append, List.filterMap_map,
    List.map_filterMap]
  exact (List.append_nil _).trans (List.filterMap_congr fun line _ => (symbolBefore?_text line).2)

/-! ## Words -/

/-- Whether a text separates words. -/
def isSeparator (sep : String) : Bool :=
  !sep.toList.isEmpty && sep.toList.all fun c => !isWordChar c

theorem words_append_cons {a b : List Char} {c : Char} (hc : isWordChar c = false) :
    words (a ++ c :: b) = words a ++ words b := by
  rw [words, List.splitOnP_append_cons _ _ (by simp [hc]), List.filter_append]
  rfl

/-- **The words around a separator** are those before it and those after it. -/
theorem words_append {a sep b : String} (hsep : isSeparator sep = true) :
    words (a ++ sep ++ b).toList = words a.toList ++ words b.toList := by
  have hdrop : ∀ {s : List Char}, (s.all fun c => !isWordChar c) = true →
      words (s ++ b.toList) = words b.toList := by
    intro s hs
    induction s with
    | nil => rfl
    | cons c s ih =>
        rw [List.all_cons, Bool.and_eq_true, Bool.not_eq_true'] at hs
        exact (words_append_cons (a := []) hs.1).trans (ih hs.2)
  rw [isSeparator, Bool.and_eq_true] at hsep
  rw [String.toList_append, String.toList_append, List.append_assoc]
  cases hs : sep.toList with
  | nil =>
      rw [hs] at hsep
      cases hsep.1
  | cons c s =>
      rw [hs, List.all_cons, Bool.and_eq_true] at hsep
      have hc : isWordChar c = false := by simpa using hsep.2.1
      rw [List.cons_append, words_append_cons hc, hdrop hsep.2.2]

theorem words_after {sep b : String} (hsep : isSeparator sep = true) :
    words (sep ++ b).toList = words b.toList := by
  have hwords := words_append (a := "") (b := b) hsep
  rw [String.empty_append] at hwords
  exact hwords

theorem words_before {a sep : String} (hsep : isSeparator sep = true) :
    words (a ++ sep).toList = words a.toList := by
  have hwords := words_append (a := a) (b := "") hsep
  rw [String.append_empty] at hwords
  exact hwords.trans (List.append_nil _)

theorem words_of_forall {w : List Char} (hne : w ≠ []) (h : ∀ c ∈ w, isWordChar c = true) :
    words w = [w] := by
  rw [words, List.splitOnP_eq_singleton (by simpa using h)]
  simp [hne]

theorem Name.words_text (n : Name) : words n.text.toList = [n.text.toList] :=
  words_of_forall n.toList_text_ne_nil fun c hc => by simp [isWordChar, n.isSymbolChar_text c hc]

/-- No name is reserved. -/
theorem Name.isReference_text (n : Name) : isReference n.text.toList = true := by
  -- the name of a loop has an underscore, which no reserved word has
  have hloop : ∀ {rest : List Char}, isReference (['l', 'o', 'o', 'p', '_'] ++ rest) = true := by
    intro rest
    have hunderscore : ∀ word ∈ reservedWords, '_' ∉ word.toList := by decide
    have hfree : String.ofList (['l', 'o', 'o', 'p', '_'] ++ rest) ∉ reservedWords := by
      intro hmem
      apply hunderscore _ hmem
      simp
    rw [isReference, List.contains_eq_mem, decide_eq_false hfree]
    rfl
  rcases n.mem_fixed_or_loop with hn | ⟨k, rfl⟩ | ⟨k, rfl⟩
  · exact (spelling_fixed n hn).2.2
  · rw [toList_text_loop]
    exact hloop
  · rw [toList_text_loopEnd, toList_text_loop, List.append_assoc]
    exact hloop

/-! ## References among words -/

theorem references_append (ws vs : List (List Char)) :
    references (ws ++ vs) = references ws ++ references vs := by
  rw [references, List.filter_append, List.map_append]
  rfl

theorem Name.references_text (n : Name) : references (words n.text.toList) = [n.text] := by
  rw [n.words_text, references, List.filter_cons_of_pos n.isReference_text, List.filter_nil,
    List.map_singleton, String.ofList_toList]

/-- A number is no reference. -/
theorem references_numeral {digits : List Char} (h : ∀ c ∈ digits, c.isDigit = true) :
    references (words digits) = [] := by
  cases digits with
  | nil => rfl
  | cons c digits =>
      rw [words_of_forall (List.cons_ne_nil c digits) fun d hd => by
        simp [isWordChar, isSymbolChar_of_isDigit (h d hd)]]
      simp [references, isReference, h c List.mem_cons_self]

theorem references_nat (n : Nat) : references (words (toString n).toList) = [] :=
  references_numeral fun _ hc => isDigit_of_mem_toString hc

theorem references_int (n : Int) : references (words (toString n).toList) = [] := by
  cases n with
  | ofNat n => exact references_nat n
  | negSucc n =>
      show references (words ("-" ++ toString (n + 1)).toList) = []
      rw [words_after (by decide)]
      exact references_nat (n + 1)

/-- A register is no reference. -/
theorem Register.references_text (r : Register) : references (words r.text.toList) = [] := by
  cases r <;> decide

/-! ## The names of an instruction -/

/-- The names in a value. -/
def Value.names : Value → List Name
  | name n | above n _ | below n _ => [n]
  | number _ | char _ => []

/-- The names in an address. -/
def Address.names : Address → List Name
  | value v => v.names
  | register _ | indexed _ _ => []

/-- The names in an operand. -/
def Operand.names : Operand → List Name
  | value v => v.names
  | byte a | memory a => a.names
  | register _ => []

/-- The name that a target is, if it is one. -/
def Target.names : Target → List Name
  | name n => [n]
  | forward | backward => []

/-- The names in an instruction. -/
def Operation.names : Operation → List Name
  | binary _ dst src => dst.names ++ src.names
  | unary _ arg => arg.names
  | lea _ a => a.names
  | jump _ target => target.names
  | call n => [n]
  | ret | syscall => []

/-- The anonymous label that an instruction jumps to, if it does. -/
def Operation.anonymous : Operation → List String
  | jump _ .forward => ["@f"]
  | jump _ .backward => ["@b"]
  | _ => []

/-- The names that a line refers to if it is an instruction. -/
def Line.names : Line → List Name
  | code o => o.names
  | _ => []

/-- The anonymous label that a line jumps to if it is an instruction. -/
def Line.anonymousTargets : Line → List String
  | code o => o.anonymous
  | _ => []

/-- A text of nothing but digits. -/
def Numeric (text : String) : Prop :=
  text.toList.all Char.isDigit = true

instance (text : String) : Decidable (Numeric text) :=
  inferInstanceAs (Decidable (_ = true))

theorem numeric_append {a b : String} : Numeric (a ++ b) ↔ Numeric a ∧ Numeric b := by
  rw [Numeric, String.toList_append, List.all_append, Bool.and_eq_true]
  rfl

theorem Value.references_text {v : Value} (h : Numeric v.quotes) :
    references (words v.text.toList) = v.names.map Name.text := by
  cases v with
  | number n => exact references_int n
  | name n => exact n.references_text
  | above n k | below n k =>
      rw [text, words_append (by decide), references_append, n.references_text, references_nat]
      rfl
  | char c =>
      have hc : c.isDigit = true := List.all_eq_true.1 h c (by simp [quotes])
      have hplain : doubleQuotes c.toString.toList = [c] := by
        have hquote : c ≠ '\'' := by
          rintro rfl
          cases hc
        simp [doubleQuotes, hquote]
      rw [text, quoted, words_before (by decide), words_after (by decide), String.toList_ofList,
        hplain]
      exact references_numeral (by simpa using hc)

theorem Address.references_text {a : Address} (h : Numeric a.quotes) :
    references (words a.text.toList) = a.names.map Name.text := by
  cases a with
  | register r =>
      rw [text, words_before (by decide), words_after (by decide)]
      exact r.references_text
  | indexed base index =>
      rw [text, words_before (by decide), words_append (by decide), words_after (by decide),
        references_append, base.references_text, index.references_text]
      rfl
  | value v =>
      rw [text, words_before (by decide), words_after (by decide)]
      exact Value.references_text h

theorem Operand.references_text {o : Operand} (h : Numeric o.quotes) :
    references (words o.text.toList) = o.names.map Name.text := by
  cases o with
  | register r => exact r.references_text
  | value v => exact Value.references_text h
  | byte a =>
      have hbyte : ("byte " : String) = "byte" ++ " " := by decide
      rw [text, hbyte, words_append (by decide), references_append, Address.references_text h]
      exact congrArg (· ++ _) (show references (words "byte".toList) = [] by decide)
  | memory a => exact Address.references_text h

/-- **An instruction refers to its own names** after the mnemonic, or to an anonymous label. -/
theorem Operation.references_text {o : Operation} (h : Numeric o.quotes) :
    references (words o.text.toList).tail = o.names.map Name.text ++ o.anonymous := by
  -- a mnemonic is one word, and what follows it are the words of the operands
  cases o with
  | binary op dst src =>
      have hop : words op.text.toList = [op.text.toList] := by cases op <;> decide
      obtain ⟨hdst, hsrc⟩ := numeric_append.1 h
      rw [text, words_append (by decide), words_append (by decide), hop]
      show references (words dst.text.toList ++ words src.text.toList) = _
      rw [references_append, Operand.references_text hdst, Operand.references_text hsrc, names,
        List.map_append]
      exact (List.append_nil _).symm
  | unary op arg =>
      have hop : words op.text.toList = [op.text.toList] := by cases op <;> decide
      rw [text, words_append (by decide), hop]
      exact (Operand.references_text h).trans (List.append_nil _).symm
  | lea dst a =>
      have hlea : ("lea " : String) = "lea" ++ " " := by decide
      have hword : words "lea".toList = ["lea".toList] := by decide
      rw [text, words_append (by decide), hlea, words_append (by decide), hword]
      show references (words dst.text.toList ++ words a.text.toList) = _
      rw [references_append, dst.references_text, Address.references_text h]
      exact (List.append_nil _).symm
  | jump j target =>
      have hj : words j.text.toList = [j.text.toList] := by cases j <;> decide
      rw [text, words_append (by decide), hj]
      cases target with
      | name n => exact n.references_text
      | forward => exact (show references (words "@f".toList) = ["@f"] by decide)
      | backward => exact (show references (words "@b".toList) = ["@b"] by decide)
  | call n =>
      have hcall : ("call " : String) = "call" ++ " " := by decide
      have hword : words "call".toList = ["call".toList] := by decide
      rw [text, hcall, words_append (by decide), hword]
      exact n.references_text
  | ret | syscall => decide

/-- An instruction is no comment. -/
theorem Operation.head?_text (o : Operation) :
    ((Line.code o).text.toList.dropWhile (· == ' ')).head? ≠ some ';' := by
  cases o with
  | binary op dst src => cases op <;> simp [Line.text, text, Binary.text]
  | unary op arg => cases op <;> simp [Line.text, text, Unary.text]
  | lea dst a => simp [Line.text, text]
  | jump j target => cases j <;> simp [Line.text, text, Jump.text]
  | call n => simp [Line.text, text]
  | ret | syscall => decide

/-- A line that begins with a name is not indented. -/
theorem referencesOf_name (n : Name) (rest : List Char) :
    referencesOf (n.text.toList ++ rest) = [] := by
  have hhead : (n.text.toList ++ rest).head? ≠ some ' ' := by
    intro hblank
    rw [List.head?_append_of_ne_nil _ n.toList_text_ne_nil] at hblank
    cases n.isSymbolChar_text ' ' (List.mem_of_head? hblank)
  rw [referencesOf, decide_eq_false hhead]
  rfl

/-- **What a line of a text refers to** is what the line refers to, if it quotes no letters. -/
theorem referencesOf_text {line : Line} (h : ∀ o, line = .code o → Numeric o.quotes) :
    referencesOf line.text.toList = line.names.map Name.text ++ line.anonymousTargets := by
  cases line with
  | blank | format | codeSegment | dataSegment | anonymous => rfl
  | entry n =>
      rw [Line.text, String.toList_append]
      rfl
  | define n d =>
      simp only [Line.text, String.toList_append, List.append_assoc, referencesOf_name]
      rfl
  | label n =>
      simp only [Line.text, String.toList_append, referencesOf_name]
      rfl
  | comment c =>
      cases c <;> simp only [Line.text, Comment.text, String.toList_append] <;> rfl
  | code o =>
      have hindented : (Line.code o).text.toList.head? = some ' ' := by
        rw [Line.text, String.toList_append]
        rfl
      rw [referencesOf, hindented, if_pos (by simpa using o.head?_text), Line.text,
        words_after (by decide)]
      exact Operation.references_text (h o rfl)
  | bytes n text =>
      simp only [Line.text, String.toList_append, List.append_assoc, referencesOf_name]
      rfl
  | reserve n count =>
      simp only [Line.text, String.toList_append, List.append_assoc, referencesOf_name]
      rfl

end TapeLang.Assembly
