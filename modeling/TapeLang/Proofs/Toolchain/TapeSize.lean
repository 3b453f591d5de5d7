import TapeLang.Draft
import TapeLang.Proofs.Generator.Symbols
import TapeLang.Proofs.Toolchain.Stages

/-!
# The size of the tape in a listing

A listing defines the size of the tape once, and whatever depends on the size refers to that
definition. `definedAs` reads from a text what it defines a symbol as, `Line.values` lists the
values that the operands of a line are made of, and `SizeAssembles` says what an assembler asks for:
the size is written as a numeral for the number of cells, and every value built from it fits into 31
bits.

The bounds on lengths are chosen so that this holds, and it does for every length that was handed in
as a number, or not at all. A length may also be handed in as the truth value `True`, which counts
as one cell. It keeps its spelling, and the text then defines the size by a word that means nothing
(`sizeAssembles_unless_truth`).
-/

set_option autoImplicit false

namespace TapeLang

namespace Assembly

open Native (defined? isCode all_isCode_code)

/-! ## Reading what a name is defined as -/

/-- What a text defines a symbol as: whatever comes after the equals sign, for every line that
begins with the symbol and an equals sign. -/
def definedAs (symbol text : String) : List (List Char) :=
  (linesOf text).filterMap fun line => line.dropPrefix? (symbol ++ " = ").toList

/-- What a line defines a name as, if it is a definition of it. -/
def definitionOf? (n : Name) : Line → Option Definition
  | .define m d => if m = n then some d else none
  | _ => none

/-- A line that begins with a name and an equals sign defines the name. -/
theorem defined?_of_text {n : Name} {line : Line} {rest : List Char}
    (h : line.text.toList = (n.text ++ " = ").toList ++ rest) : defined? line = some n := by
  have hsymbol : symbolBefore? isDefinitionMark line.text.toList = some n.text := by
    rw [h, String.toList_append, List.append_assoc]
    exact symbolBefore?_name n (by decide) _
  rw [(symbolBefore?_text line).1] at hsymbol
  obtain ⟨m, hm, hmn⟩ := Option.map_eq_some_iff.1 hsymbol
  rw [hm, Name.text_injective hmn]

/-- **A line of a text defines a name by an equals sign exactly if the line does.** -/
theorem text_eq_define_iff {n : Name} {line : Line} {rest : List Char} :
    line.text.toList = (n.text ++ " = ").toList ++ rest ↔
      ∃ d, definitionOf? n line = some d ∧ d.text.toList = rest := by
  constructor
  · intro h
    have hdefined := defined?_of_text h
    rw [String.toList_append, List.append_assoc] at h
    -- of the lines that define the name, the others go on with another mark
    cases line with
    | define m d =>
        obtain rfl : m = n := Option.some.inj hdefined
        rw [Line.text, String.toList_append, String.toList_append, List.append_assoc] at h
        exact ⟨d, if_pos rfl, List.append_cancel_left (List.append_cancel_left h)⟩
    | label m =>
        obtain rfl : m = n := Option.some.inj hdefined
        rw [Line.text, String.toList_append] at h
        cases List.append_cancel_left h
    | bytes m text | reserve m count =>
        obtain rfl : m = n := Option.some.inj hdefined
        rw [Line.text, String.toList_append, String.toList_append, List.append_assoc] at h
        cases List.append_cancel_left h
    | blank | format | codeSegment | dataSegment | entry m | anonymous | comment c | code o =>
        cases hdefined
  · rintro ⟨d, hd, rfl⟩
    cases line with
    | define m d' =>
        obtain ⟨rfl, hdd⟩ := Option.ite_none_right_eq_some.1 hd
        obtain rfl : d' = d := Option.some.inj hdd
        rw [Line.text, String.toList_append]
    | _ => cases hd

theorem dropPrefix?_text (n : Name) (line : Line) :
    line.text.toList.dropPrefix? (n.text ++ " = ").toList =
      (definitionOf? n line).map fun d => d.text.toList := by
  ext rest
  rw [List.dropPrefix?_eq_some_iff, Option.map_eq_some_iff, ← text_eq_define_iff]
  constructor
  · rintro ⟨front, htext, hfront⟩
    rw [htext, eq_of_beq hfront]
  · intro htext
    exact ⟨_, htext, beq_self_eq_true _⟩

/-- **A text defines a name as its listing does.** -/
theorem definedAs_text {listing : Listing} (h : ∀ line ∈ listing, OneLine line.text) (n : Name) :
    definedAs n.text listing.text =
      (listing.filterMap (definitionOf? n)).map fun d => d.text.toList := by
  rw [definedAs, linesOf, splitOn_text h, List.filterMap_append, List.filterMap_map,
    List.map_filterMap]
  -- the empty line behind the last newline defines nothing
  have hlast : [([] : List Char)].filterMap
      (fun line => line.dropPrefix? (n.text ++ " = ").toList) = [] := by
    rw [String.toList_append]
    cases hname : n.text.toList with
    | nil => exact absurd hname n.toList_text_ne_nil
    | cons c cs => rfl
  rw [hlast, List.append_nil]
  exact List.filterMap_congr fun line _ => dropPrefix?_text n line

theorem definitionOf?_of_isCode (n : Name) {line : Line} (h : isCode line = true) :
    definitionOf? n line = none := by
  cases line with
  | define m d => cases h
  | _ => rfl

/-- A listing defines the size of the tape once, as the length that was handed in. -/
theorem definedAs_tapeSize (config : TapeConfig) (annotate : Bool) (b : Body) :
    definedAs "TAPE_SIZE" (listingOf config annotate b).text = [config.length.text.toList] := by
  have hcode : (b.code config annotate 0).filterMap (definitionOf? .tapeSize) = [] := by
    rw [List.filterMap_eq_nil_iff]
    intro line hline
    apply definitionOf?_of_isCode
    exact List.all_eq_true.1 (all_isCode_code config annotate 0 b) line hline
  have htrailer : (trailer config).filterMap (definitionOf? .tapeSize) = [] := by
    simp only [trailer, faultRoutines, dataSegment]
    cases config.wraps <;> rfl
  show definedAs Name.tapeSize.text _ = _
  rw [definedAs_text (oneLine_listingOf config annotate b), listingOf, List.filterMap_append,
    List.filterMap_append, hcode, htrailer]
  rfl

/-! ## The values that operands are made of -/

/-- The value in an address. -/
def Address.values : Address → List Value
  | value v => [v]
  | register _ | indexed _ _ => []

/-- The value in an operand. -/
def Operand.values : Operand → List Value
  | value v => [v]
  | byte a | memory a => a.values
  | register _ => []

/-- The values in an instruction, the places it goes to among them. -/
def Operation.values : Operation → List Value
  | binary _ dst src => dst.values ++ src.values
  | unary _ arg => arg.values
  | lea _ a => a.values
  | jump _ target => target.names.map .name
  | call n => [.name n]
  | ret | syscall => []

/-- The values in a line. -/
def Line.values : Line → List Value
  | code o => o.values
  | reserve _ count => [count]
  | _ => []

/-- Whether a line takes the size of the tape only as it is or less one. -/
def takesSize (line : Line) : Bool :=
  line.values.all fun v =>
    !v.names.contains .tapeSize || v == .name .tapeSize || v == .below .tapeSize 1

theorem all_takesSize_lines (config : TapeConfig) (i : Instruction) :
    (i.lines config).all takesSize = true := by
  obtain ⟨command, index, offset⟩ := i
  simp only [Instruction.lines, Instruction.code?, checked, moveLeftLines, moveRightLines]
  cases config.wraps with
  | true => cases config.isPowerOfTwo <;> cases command <;> rfl
  | false => cases command <;> rfl

/-- **A listing takes the size of the tape only as it is or less one.** -/
theorem all_takesSize_listingOf (config : TapeConfig) (annotate : Bool) (b : Body) :
    (listingOf config annotate b).all takesSize = true := by
  have hcode := Body.all_code annotate (P := takesSize) (fun _ => rfl) (all_takesSize_lines config)
    (fun _ => rfl) 0 b
  have htrailer : (trailer config).all takesSize = true := by
    simp only [trailer, faultRoutines, dataSegment]
    cases config.wraps <;> rfl
  rw [listingOf, List.all_append, List.all_append, hcode, htrailer]
  rfl

end Assembly

open Assembly

/-! ## Numerals -/

/-- A number is read back from its digits. -/
theorem numeral?_toString (n : Nat) : numeral? (toString n).toList = some n := by
  have hdigits : (toString n).toList.any (!·.isDigit) = false := by
    rw [List.any_eq_false]
    intro c hc
    rw [isDigit_of_mem_toString hc]
    decide
  rw [numeral?, hdigits, List.isEmpty_eq_false_iff.2 (toList_toString_ne_nil n)]
  simp only [Bool.or_self, Bool.false_eq_true, if_false, Option.some.injEq]
  rw [Nat.toString_eq_repr, Nat.toList_repr]
  exact Nat.ofDigitChars_ten_toDigits

/-- The digits of a length are a numeral unless it was handed in as a truth value. -/
theorem TapeLength.numeral?_text (l : TapeLength) :
    numeral? l.text.toList = some l.cells ↔ l ≠ .truth := by
  cases l with
  | number n =>
      refine ⟨fun _ h => ?_, fun _ => numeral?_toString n⟩
      cases h
  | truth =>
      refine ⟨fun h => ?_, fun h => absurd rfl h⟩
      cases h

/-! ## Lengths that are handed in -/

/-- Only a truth value gives the length that is a truth value. -/
theorem TapeLength.ofSetting_eq_truth {s : Setting} {l : { l : TapeLength // 1 ≤ l.cells }}
    (h : TapeLength.ofSetting s = .ok l) : l.val = .truth ↔ s = .truth true := by
  unfold TapeLength.ofSetting at h
  split at h
  · cases h
    exact ⟨fun _ => rfl, fun _ => rfl⟩
  · split at h
    · cases h
      exact iff_of_false TapeLength.noConfusion Setting.noConfusion
    · cases h
  · cases h

/-- A configuration has a truth value for its length exactly if one was handed in. -/
theorem TapeConfig.length_eq_truth_iff {policy length : Option Setting} {config : TapeConfig}
    (h : TapeConfig.ofSettings policy length = .ok config) :
    config.length = .truth ↔ length = some (.truth true) := by
  simp only [TapeConfig.ofSettings, bind, Except.bind] at h
  -- neither the bound nor the policy changes the length
  cases length with
  | none =>
      have hlength : config.length = .number 30000 := by grind
      rw [hlength]
      exact iff_of_false TapeLength.noConfusion (Option.some_ne_none _).symm
  | some s =>
      cases hs : TapeLength.ofSetting s with
      | error e =>
          simp only [hs] at h
          cases h
      | ok l =>
          have hlength : config.length = l.val := by grind
          rw [hlength, Option.some.injEq]
          exact TapeLength.ofSetting_eq_truth hs

/-! ## The size can be assembled -/

/-- What an assembler asks of the size of the tape in a listing: the text defines it once, as a
numeral for the number of cells, which is positive and has 31 bits at most, and every value that is
built from it is the size or one less, which has 31 bits at most as well and is not negative. -/
structure SizeAssembles (config : TapeConfig) (listing : Listing) : Prop where
  numeral : ∃ digits, definedAs "TAPE_SIZE" listing.text = [digits] ∧
    numeral? digits = some (Tape.blank config).size
  range : 1 ≤ (Tape.blank config).size ∧ (Tape.blank config).size ≤ 2 ^ 31 - 1
  operands : ∀ line ∈ listing, ∀ v ∈ line.values, Name.tapeSize ∈ v.names →
    (v = .name .tapeSize ∨ v = .below .tapeSize 1) ∧
      ∃ n, Native.value? [(.tapeSize, ((Tape.blank config).size : Int))] v = some n ∧
        0 ≤ n ∧ n ≤ 2 ^ 31 - 1

/-- The values that are built from the size of the tape fit into 31 bits. -/
theorem value?_of_takesSize {line : Line} (h : takesSize line = true) {v : Value}
    (hv : v ∈ line.values) (hsize : Name.tapeSize ∈ v.names) {size : Nat} (hpos : 1 ≤ size)
    (hle : size ≤ 2 ^ 31 - 1) :
    (v = .name .tapeSize ∨ v = .below .tapeSize 1) ∧
      ∃ n, Native.value? [(.tapeSize, (size : Int))] v = some n ∧ 0 ≤ n ∧ n ≤ 2 ^ 31 - 1 := by
  have hform := List.all_eq_true.1 h v hv
  rw [List.contains_iff_mem.2 hsize, Bool.not_true, Bool.false_or, Bool.or_eq_true,
    beq_iff_eq, beq_iff_eq] at hform
  refine ⟨hform, ?_⟩
  rcases hform with rfl | rfl
  · exact ⟨size, rfl, by omega, by omega⟩
  · exact ⟨size - 1, rfl, by omega, by omega⟩

/-- **The size of the tape can be assembled exactly if the length is no truth value.** -/
theorem sizeAssembles_listingOf_iff (config : TapeConfig) (annotate : Bool) (b : Body) :
    SizeAssembles config (listingOf config annotate b) ↔ config.length ≠ .truth := by
  rw [← TapeLength.numeral?_text]
  constructor
  · rintro ⟨⟨digits, hdigits, hnumeral⟩, -, -⟩
    rw [definedAs_tapeSize] at hdigits
    rw [List.head_eq_of_cons_eq hdigits]
    exact hnumeral
  · intro hnumeral
    have hrange : 1 ≤ (Tape.blank config).size ∧ (Tape.blank config).size ≤ 2 ^ 31 - 1 :=
      ⟨config.one_le, config.le_max⟩
    refine ⟨⟨_, definedAs_tapeSize config annotate b, hnumeral⟩, hrange, ?_⟩
    intro line hline v hv hsize
    have htakes := List.all_eq_true.1 (all_takesSize_listingOf config annotate b) line hline
    exact value?_of_takesSize htakes hv hsize hrange.1 hrange.2

/-- **The size of the tape can be assembled unless the length was handed in as a truth value.** Of
every program there is a listing, with all settings that are accepted. The settings that are
accepted as a length are plain integers and the truth value `True`; other kinds of integers, which
may have a spelling of their own, are outside the model, and the condition is exact relative to
these two. If the length was handed in as an integer or not at all, the listing has a numeral for
the size of the tape, and all that is built from the size fits into a signed number of 32 bits; if
it was handed in as `True`, then not. -/
theorem sizeAssembles_unless_truth (policy length : Option Setting) (config : TapeConfig)
    (hconfig : TapeConfig.ofSettings policy length = .ok config) (source : String) (p : Program)
    (hparse : (parse source).value = .ok p) (annotate : Bool) :
    ∃ listing, (compile source config annotate).value = .ok listing ∧
      (SizeAssembles config listing ↔ length ≠ some (.truth true)) := by
  refine ⟨_, value_compile_of_ok hparse config annotate, ?_⟩
  rw [sizeAssembles_listingOf_iff, ne_eq, TapeConfig.length_eq_truth_iff hconfig]

/-- The greatest length is handed in as a number. -/
theorem sizeAssembles_of_greatest_length : ∃ config listing,
    TapeConfig.ofSettings (some (.text "wrapping")) (some (.integer 2147483647)) = .ok config ∧
      (compile ">" config false).value = .ok listing ∧ SizeAssembles config listing := by
  let config : TapeConfig :=
    { policy := .wrapping, length := .number 2147483647, one_le := by decide, le_max := by decide }
  have hconfig : TapeConfig.ofSettings (some (.text "wrapping")) (some (.integer 2147483647)) =
      .ok config := rfl
  have hparse : (parse ">").value =
      .ok { body := .instr ⟨.moveRight, 0, 0⟩ .nil, instructionCount := 1 } := by rfl
  obtain ⟨listing, hlisting, hsize⟩ :=
    sizeAssembles_unless_truth _ _ config hconfig ">" _ hparse false
  exact ⟨config, listing, hconfig, hlisting, hsize.2 (by rintro ⟨⟩)⟩

/-- The truth value `True` is accepted as a length, and the listing defines the size of the tape as
a word that is no numeral. -/
theorem truth_is_no_size : ∃ config listing,
    TapeConfig.ofSettings none (some (.truth true)) = .ok config ∧
      (compile "" config false).value = .ok listing ∧
      definedAs "TAPE_SIZE" listing.text = ["True".toList] ∧ ¬ SizeAssembles config listing := by
  let config : TapeConfig := { length := .truth }
  have hparse : (parse "").value = .ok { body := .nil, instructionCount := 0 } := by rfl
  refine ⟨config, _, rfl, value_compile_of_ok hparse config false, ?_, ?_⟩
  · exact definedAs_tapeSize config false .nil
  · rw [sizeAssembles_listingOf_iff]
    exact fun h => h rfl

end TapeLang
