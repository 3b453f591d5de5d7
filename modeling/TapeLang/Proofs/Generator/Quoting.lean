import Mathlib.Logic.Function.Defs
import TapeLang.Proofs.Generator.Text

/-!
# Reading quoted texts

A flat assembler reads a quoted text from its opening quote up to the first quote that is not written
twice. A quote that is written twice stands for itself. `readQuoted?` reads in this way, and also
says what is left behind the text.

Reading undoes quoting, whatever is left, as long as that does not begin with a quote, and nothing
else can be read (`readQuoted?_eq_some_iff`). The induction is on the text: the reader takes the two
quotes that stand for one in a single step, so it meets the closing quote only where the text ends.
The main statement is `quoting_reads_back`.
-/

set_option autoImplicit false

namespace TapeLang.Assembly

/-! ## The reader -/

/-- Read up to the first quote that is not written twice: the text, and what is left behind that
quote. There is no text if there is no such quote. -/
def scanQuoted? : List Char → Option (List Char × List Char)
  | [] => none
  | '\'' :: '\'' :: rest => (scanQuoted? rest).map (Prod.map ('\'' :: ·) id)
  | '\'' :: rest => some ([], rest)
  | c :: rest => (scanQuoted? rest).map (Prod.map (c :: ·) id)

/-- Read a quoted text: the text, and what is left behind it. -/
def readQuoted? (input : String) : Option (String × String) :=
  match input.toList with
  | '\'' :: rest => (scanQuoted? rest).map (Prod.map String.ofList String.ofList)
  | _ => none

/-! ## Reading what was written -/

/-- A quote that is not followed by another one ends the text. -/
theorem scanQuoted?_close {rest : List Char} (h : rest.head? ≠ some '\'') :
    scanQuoted? ('\'' :: rest) = some ([], rest) := by
  cases rest with
  | nil => rfl
  | cons c rest =>
      have hc : c ≠ '\'' := fun heq => h (congrArg some heq)
      simp [scanQuoted?, hc]

/-- A quote that is followed by another one stands for itself. -/
theorem scanQuoted?_quote (rest : List Char) :
    scanQuoted? ('\'' :: '\'' :: rest) = (scanQuoted? rest).map (Prod.map ('\'' :: ·) id) := by
  rw [scanQuoted?]

theorem scanQuoted?_other {c : Char} (hc : c ≠ '\'') (rest : List Char) :
    scanQuoted? (c :: rest) = (scanQuoted? rest).map (Prod.map (c :: ·) id) := by
  rw [scanQuoted?]
  · exact fun _ heq _ => hc heq
  · exact hc

theorem scanQuoted?_doubleQuotes (text : List Char) {rest : List Char}
    (h : rest.head? ≠ some '\'') :
    scanQuoted? (doubleQuotes text ++ '\'' :: rest) = some (text, rest) := by
  induction text with
  | nil => exact scanQuoted?_close h
  | cons c text ih =>
      by_cases hc : c = '\''
      · rw [doubleQuotes, if_pos hc, hc, List.cons_append, List.cons_append, scanQuoted?_quote, ih]
        rfl
      · rw [doubleQuotes, if_neg hc, List.cons_append, scanQuoted?_other hc, ih]
        rfl

/-- What was read was written. -/
theorem eq_of_scanQuoted? {input text rest : List Char}
    (h : scanQuoted? input = some (text, rest)) :
    input = doubleQuotes text ++ '\'' :: rest ∧ rest.head? ≠ some '\'' := by
  fun_induction scanQuoted? input generalizing text with
  | case1 => cases h
  | case2 input ih =>
      -- a quote written twice: both characters are what the text's own quote is written as
      obtain ⟨⟨inner, left⟩, hscan, hpair⟩ := Option.map_eq_some_iff.1 h
      cases hpair
      obtain ⟨rfl, hrest⟩ := ih hscan
      exact ⟨rfl, hrest⟩
  | case3 input hnot =>
      -- the closing quote: had another one followed, it would have been read as a pair
      cases h
      refine ⟨rfl, ?_⟩
      intro hhead
      obtain ⟨left, hleft⟩ := List.head?_eq_some_iff.1 hhead
      exact hnot left hleft
  | case4 c input hquote hc ih =>
      obtain ⟨⟨inner, left⟩, hscan, hpair⟩ := Option.map_eq_some_iff.1 h
      cases hpair
      obtain ⟨rfl, hrest⟩ := ih hscan
      refine ⟨?_, hrest⟩
      show _ = doubleQuotes (c :: inner) ++ _
      rw [doubleQuotes, if_neg hc]
      rfl

theorem toList_quoted_append (text rest : String) :
    (quoted text ++ rest).toList = '\'' :: (doubleQuotes text.toList ++ '\'' :: rest.toList) := by
  simp [quoted]

/-- **The reader reads exactly what is written**, in front of anything that does not begin with a
quote. -/
theorem readQuoted?_eq_some_iff {input text rest : String} :
    readQuoted? input = some (text, rest) ↔
      input = quoted text ++ rest ∧ rest.toList.head? ≠ some '\'' := by
  rw [readQuoted?]
  constructor
  · intro h
    split at h
    · rename_i chars hinput
      obtain ⟨⟨inner, left⟩, hscan, hpair⟩ := Option.map_eq_some_iff.1 h
      cases hpair
      obtain ⟨rfl, hleft⟩ := eq_of_scanQuoted? hscan
      refine ⟨?_, ?_⟩
      · rw [← String.toList_inj, hinput, toList_quoted_append, String.toList_ofList,
          String.toList_ofList]
      · rw [String.toList_ofList]
        exact hleft
    · cases h
  · rintro ⟨rfl, hrest⟩
    rw [toList_quoted_append]
    show (scanQuoted? _).map _ = _
    rw [scanQuoted?_doubleQuotes _ hrest, Option.map_some, Prod.map_apply, String.ofList_toList,
      String.ofList_toList]

/-- Quoted texts can be told apart from what is left behind them. -/
theorem quoted_append_inj {text text' : String} (rest rest' : String)
    (h : rest.toList.head? ≠ some '\'') (h' : rest'.toList.head? ≠ some '\'')
    (heq : quoted text ++ rest = quoted text' ++ rest') : text = text' ∧ rest = rest' := by
  have hread : readQuoted? (quoted text ++ rest) = some (text, rest) :=
    readQuoted?_eq_some_iff.2 ⟨rfl, h⟩
  have hread' : readQuoted? (quoted text ++ rest) = some (text', rest') :=
    readQuoted?_eq_some_iff.2 ⟨heq, h'⟩
  cases hread.symm.trans hread'
  exact ⟨rfl, rfl⟩

/-! ## Texts in a listing -/

theorem text_append (front back : Listing) :
    Listing.text (front ++ back) = Listing.text front ++ Listing.text back := by
  rw [← String.toList_inj, String.toList_append, toList_text, toList_text, toList_text,
    List.flatMap_append]

/-- The data of a text stands in the listing behind its name, and is followed by a newline. -/
theorem text_bytes (front back : Listing) (n : Name) (text : String) :
    Listing.text (front ++ .bytes n text :: back) =
      Listing.text front ++ n.text ++ " db " ++ (quoted text ++ ("\n" ++ Listing.text back)) := by
  have hline : Listing.text [.bytes n text] = n.text ++ " db " ++ quoted text ++ "\n" :=
    congrArg (· ++ "\n") (String.empty_append ..)
  rw [List.append_cons, text_append, text_append, hline]
  simp only [String.append_assoc]

/-- **Quoted texts read back.** Whatever the text, and whatever follows unless it begins with a
quote, reading the quoted text gives the text and leaves what follows. No two texts are quoted
alike, and nothing but a quoted text can be read. In a listing every text of the data can be read
where it stands, and the rest of the listing is left. -/
theorem quoting_reads_back :
    (∀ text rest : String, rest.toList.head? ≠ some '\'' →
      readQuoted? (quoted text ++ rest) = some (text, rest)) ∧
    Function.Injective quoted ∧
    (∀ input text rest : String, readQuoted? input = some (text, rest) →
      input = quoted text ++ rest ∧ rest.toList.head? ≠ some '\'') ∧
    (∀ (front back : Listing) (n : Name) (text : String), ∃ literal,
      Listing.text (front ++ .bytes n text :: back) =
        Listing.text front ++ n.text ++ " db " ++ literal ∧
      readQuoted? literal = some (text, "\n" ++ Listing.text back)) := by
  refine ⟨?_, ?_, ?_, ?_⟩
  · intro text rest hrest
    exact readQuoted?_eq_some_iff.2 ⟨rfl, hrest⟩
  · intro text text' heq
    have hempty : "".toList.head? ≠ some '\'' := (Option.some_ne_none _).symm
    exact (quoted_append_inj "" "" hempty hempty (congrArg (· ++ "") heq)).1
  · intro input text rest hread
    exact readQuoted?_eq_some_iff.1 hread
  · intro front back n text
    refine ⟨_, text_bytes front back n text, readQuoted?_eq_some_iff.2 ⟨rfl, ?_⟩⟩
    -- the line ends behind the text
    rw [String.toList_append]
    simp

/-- A text with quotes at both ends and two in the middle reads back. Two quoted texts without
anything between them are read as one, which is what they are. -/
theorem quotes_at_both_ends_read_back :
    quoted "'it''s'" = "'''it''''s'''" ∧ ", 10".toList.head? ≠ some '\'' ∧
      readQuoted? (quoted "'it''s'" ++ ", 10") = some ("'it''s'", ", 10") ∧
      readQuoted? (quoted "a" ++ quoted "b") = some ("a'b", "") ∧
      quoted "a" ++ quoted "b" = quoted "a'b" ++ "" := by
  have hrest : ", 10".toList.head? ≠ some '\'' := by decide
  have hread : readQuoted? (quoted "a" ++ quoted "b") = some ("a'b", "") := by decide
  obtain ⟨hreads, -, honly, -⟩ := quoting_reads_back
  exact ⟨by decide, hrest, hreads _ _ hrest, hread, (honly _ _ _ hread).1⟩

end TapeLang.Assembly
