import TapeLang.Proofs.Generator.Scheme

/-!
# The lines of a generated text

The text of a listing ends every line with a newline. The lines can be told apart in the text only
if no line has a newline of its own. The one place where a line could have one is what it quotes
(`Line.oneLine_text`), and a generated listing quotes no newline. So splitting its text at the
newlines gives its lines back (`splitOn_text`, `oneLine_listingOf`).
-/

set_option autoImplicit false

namespace TapeLang.Assembly

/-! ## Texts without newlines -/

/-- A text that stays on one line. -/
def OneLine (text : String) : Prop :=
  '\n' ∉ text.toList

instance (text : String) : Decidable (OneLine text) :=
  inferInstanceAs (Decidable (¬ _))

theorem oneLine_append {a b : String} : OneLine (a ++ b) ↔ OneLine a ∧ OneLine b := by
  simp [OneLine]

theorem OneLine.append {a b : String} (ha : OneLine a) (hb : OneLine b) : OneLine (a ++ b) :=
  oneLine_append.2 ⟨ha, hb⟩

/-- A number is written with digits. -/
theorem isDigit_of_mem_toString {n : Nat} {c : Char} (h : c ∈ (toString n).toList) :
    c.isDigit = true := by
  rw [Nat.toString_eq_repr, Nat.toList_repr] at h
  exact Nat.isDigit_of_mem_toDigits (by decide) (by decide) h

theorem oneLine_nat (n : Nat) : OneLine (toString n) := by
  intro h
  cases isDigit_of_mem_toString h

theorem oneLine_int (n : Int) : OneLine (toString n) := by
  cases n with
  | ofNat n => exact oneLine_nat n
  | negSucc n =>
      show OneLine ("-" ++ toString (n + 1))
      exact .append (by decide) (oneLine_nat (n + 1))

theorem mem_doubleQuotes {c : Char} {chars : List Char} :
    c ∈ doubleQuotes chars ↔ c ∈ chars := by
  induction chars with
  | nil => rfl
  | cons d chars ih =>
      rw [doubleQuotes]
      split <;> simp [ih]

/-- Quoting a text adds no newline to it. -/
theorem oneLine_quoted {text : String} (h : OneLine text) : OneLine (quoted text) := by
  have hinner : OneLine (String.ofList (doubleQuotes text.toList)) := by
    rw [OneLine, String.toList_ofList, mem_doubleQuotes]
    exact h
  exact .append (.append (by decide) hinner) (by decide)

/-! ## The parts of a line -/

theorem Register.oneLine_text (r : Register) : OneLine r.text := by
  cases r <;> decide

theorem Name.oneLine_text (n : Name) : OneLine n.text := by
  cases n with
  | loop n => exact .append (by decide) (oneLine_nat n)
  | loopEnd n => exact .append (.append (by decide) (oneLine_nat n)) (by decide)
  | edge e | edgeMessage e | edgeMessageLength e => cases e <;> decide
  | _ => decide

/-- What a value quotes. -/
def Value.quotes : Value → String
  | char c => c.toString
  | _ => ""

/-- What an address quotes. -/
def Address.quotes : Address → String
  | value v => v.quotes
  | _ => ""

/-- What an operand quotes. -/
def Operand.quotes : Operand → String
  | register _ => ""
  | value v => v.quotes
  | byte a | memory a => a.quotes

/-- What an instruction quotes. -/
def Operation.quotes : Operation → String
  | binary _ dst src => dst.quotes ++ src.quotes
  | unary _ arg => arg.quotes
  | lea _ a => a.quotes
  | _ => ""

/-- What a line quotes. -/
def Line.quotes : Line → String
  | code o => o.quotes
  | bytes _ text => text
  | reserve _ count => count.quotes
  | _ => ""

theorem Value.oneLine_text {v : Value} (h : OneLine v.quotes) : OneLine v.text := by
  cases v with
  | number n => exact oneLine_int n
  | name n => exact n.oneLine_text
  | above n k | below n k => exact .append (.append n.oneLine_text (by decide)) (oneLine_nat k)
  | char c => exact oneLine_quoted h

theorem Address.oneLine_text {a : Address} (h : OneLine a.quotes) : OneLine a.text := by
  -- every address stands between brackets
  have hbrackets : ∀ {inner : String}, OneLine inner → OneLine ("[" ++ inner ++ "]") :=
    fun hinner => .append (.append (by decide) hinner) (by decide)
  cases a with
  | register r => exact hbrackets r.oneLine_text
  | indexed base index =>
      have hbase : OneLine ("[" ++ base.text ++ " + ") :=
        .append (.append (by decide) base.oneLine_text) (by decide)
      exact .append (.append hbase index.oneLine_text) (by decide)
  | value v => exact hbrackets (Value.oneLine_text h)

theorem Operand.oneLine_text {o : Operand} (h : OneLine o.quotes) : OneLine o.text := by
  cases o with
  | register r => exact r.oneLine_text
  | value v => exact Value.oneLine_text h
  | byte a => exact .append (by decide) (Address.oneLine_text h)
  | memory a => exact Address.oneLine_text h

theorem Target.oneLine_text (t : Target) : OneLine t.text := by
  cases t with
  | name n => exact n.oneLine_text
  | forward | backward => decide

theorem Operation.oneLine_text {o : Operation} (h : OneLine o.quotes) : OneLine o.text := by
  cases o with
  | binary op dst src =>
      obtain ⟨hdst, hsrc⟩ := oneLine_append.1 h
      have hop : OneLine (op.text ++ " ") := by cases op <;> decide
      have hfront : OneLine (op.text ++ " " ++ dst.text ++ ", ") :=
        (hop.append (Operand.oneLine_text hdst)).append (by decide)
      exact hfront.append (Operand.oneLine_text hsrc)
  | unary op arg =>
      have hop : OneLine (op.text ++ " ") := by cases op <;> decide
      exact hop.append (Operand.oneLine_text h)
  | lea dst a =>
      exact .append (.append (.append (by decide) dst.oneLine_text) (by decide))
        (Address.oneLine_text h)
  | jump j target =>
      have hj : OneLine (j.text ++ " ") := by cases j <;> decide
      exact hj.append target.oneLine_text
  | call n => exact .append (by decide) n.oneLine_text
  | ret | syscall => decide

theorem Comment.oneLine_text (c : Comment) : OneLine c.text := by
  cases c with
  | instruction command index =>
      have hfront : OneLine ("; " ++ command.symbol.toString ++ " (instruction ") := by
        cases command <;> decide
      exact (hfront.append (oneLine_int index)).append (by decide)
  | loop openIndex closeIndex =>
      exact .append (.append (.append (by decide) (oneLine_int openIndex)) (by decide))
        (oneLine_int closeIndex)

theorem Definition.oneLine_text (d : Definition) : OneLine d.text := by
  cases d with
  | number n => exact oneLine_nat n
  | length l =>
      cases l with
      | number n => exact oneLine_nat n
      | truth => decide
  | since n => exact .append (by decide) n.oneLine_text

/-- **A line has no newline of its own, unless it quotes one.** -/
theorem Line.oneLine_text {line : Line} (h : OneLine line.quotes) : OneLine line.text := by
  cases line with
  | blank | format | codeSegment | dataSegment | anonymous => decide
  | entry n => exact .append (by decide) n.oneLine_text
  | define n d => exact .append (.append n.oneLine_text (by decide)) d.oneLine_text
  | label n => exact .append n.oneLine_text (by decide)
  | comment c => exact .append (by decide) c.oneLine_text
  | code o => exact .append (by decide) (Operation.oneLine_text h)
  | bytes n text => exact .append (.append n.oneLine_text (by decide)) (oneLine_quoted h)
  | reserve n count => exact .append (.append n.oneLine_text (by decide)) (Value.oneLine_text h)

/-! ## The text of a listing -/

theorem toList_text (listing : Listing) :
    listing.text.toList = listing.flatMap fun line => line.text.toList ++ ['\n'] := by
  -- the text is built by appending to what is already written
  have hfold : ∀ written : String,
      (listing.foldl (fun text line => text ++ line.text ++ "\n") written).toList =
        written.toList ++ listing.flatMap fun line => line.text.toList ++ ['\n'] := by
    induction listing with
    | nil => simp
    | cons line listing ih =>
        intro written
        rw [List.foldl_cons, ih]
        simp
  rw [Listing.text, hfold]
  rfl

/-- **The lines of a text are those of its listing**, and an empty one after the last newline. -/
theorem splitOn_text {listing : Listing} (h : ∀ line ∈ listing, OneLine line.text) :
    listing.text.toList.splitOn '\n' = listing.map (fun line => line.text.toList) ++ [[]] := by
  rw [toList_text]
  induction listing with
  | nil => rfl
  | cons line listing ih =>
      have hline : ∀ c ∈ line.text.toList, (c == '\n') = false := by
        intro c hc
        have hne : c ≠ '\n' := fun heq => h line List.mem_cons_self (heq ▸ hc)
        simpa using hne
      rw [List.forall_mem_cons] at h
      rw [List.flatMap_cons, List.append_assoc, List.splitOn_eq_splitOnP, List.singleton_append,
        List.splitOnP_append_cons_of_forall_mem hline '\n' (by decide)]
      exact congrArg _ (ih h.2)

/-! ## What a generated listing quotes -/

/-- Whether a line quotes no newline. -/
def isPlain (line : Line) : Bool :=
  decide (OneLine line.quotes)

theorem all_isPlain_append {a b : Listing} (ha : a.all isPlain = true)
    (hb : b.all isPlain = true) : (a ++ b).all isPlain = true := by
  rw [List.all_append, ha, hb]
  rfl

/-- The lines of an instruction quote no newline. -/
theorem all_isPlain_lines (config : TapeConfig) (i : Instruction) :
    (i.lines config).all isPlain = true := by
  have hright : (moveRightLines config).all isPlain = true := by
    unfold moveRightLines
    split
    · rfl
    · split <;> rfl
  have hleft : (moveLeftLines config).all isPlain = true := by
    unfold moveLeftLines
    split
    · rfl
    · split <;> rfl
  have hchecked : ∀ (test : Line) (j : Jump) (e : Edge), isPlain test = true →
      (checked config i test j e).all isPlain = true := by
    intro test j e htest
    unfold checked
    split
    · rfl
    · simp only [List.all_cons, htest]
      rfl
  obtain ⟨command, index, offset⟩ := i
  cases command with
  | moveLeft => exact all_isPlain_append (hchecked _ _ _ rfl) hleft
  | moveRight => exact all_isPlain_append (hchecked _ _ _ rfl) hright
  | increment => exact all_isPlain_append (hchecked _ _ _ rfl) rfl
  | decrement => exact all_isPlain_append (hchecked _ _ _ rfl) rfl
  | output | input | loopOpen | loopClose => rfl

theorem all_isPlain_code (config : TapeConfig) (annotate : Bool) (n : Nat) (b : Body) :
    (b.code config annotate n).all isPlain = true :=
  Body.all_code annotate (fun _ => rfl) (all_isPlain_lines config) (fun _ => rfl) n b

theorem all_isPlain_trailer (config : TapeConfig) : (trailer config).all isPlain = true := by
  cases hw : config.wraps with
  | true =>
      simp only [trailer, faultRoutines, dataSegment, hw, if_true]
      decide
  | false =>
      simp only [trailer, faultRoutines, dataSegment, hw, Bool.false_eq_true, if_false]
      decide

/-- **No line of a generated listing has a newline of its own.** -/
theorem oneLine_listingOf (config : TapeConfig) (annotate : Bool) (b : Body) :
    ∀ line ∈ listingOf config annotate b, OneLine line.text := by
  have hheader : (header config.length).all isPlain = true := rfl
  have hall : (listingOf config annotate b).all isPlain = true :=
    all_isPlain_append hheader
      (all_isPlain_append (all_isPlain_code config annotate 0 b) (all_isPlain_trailer config))
  intro line hline
  apply Line.oneLine_text
  exact of_decide_eq_true (List.all_eq_true.1 hall line hline)

end TapeLang.Assembly
