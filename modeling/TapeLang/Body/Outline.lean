import TapeLang.Body.Visit

/-!
# Outlines

The outline of a program has one line for each node and one for the end of each loop, indented by
the loops around it.
-/

set_option autoImplicit false

namespace TapeLang

namespace Text

/-- A text repeated `n` times. The empty text is not copied at all. -/
def repeated (n : Nat) (text : String) : String :=
  if text = "" then "" else String.join (List.replicate n text)

theorem repeated_zero (text : String) : repeated 0 text = "" := by
  by_cases h : text = ""
  · simp [repeated, h]
  · simp [repeated, h]

theorem repeated_succ (n : Nat) (text : String) :
    repeated (n + 1) text = text ++ repeated n text := by
  by_cases h : text = ""
  · simp [repeated, h]
  · simp [repeated, h, List.replicate_succ]

end Text

open Text (repeated)

/-- The outline's line for one event of a walk. -/
def Visit.line (indent : String) : Visit → String
  | .instr depth i => repeated depth indent ++ i.text
  | .enter depth _ openIndex closeIndex =>
      repeated depth indent ++ "[  # " ++ toString openIndex ++ ".." ++ toString closeIndex
  | .leave depth => repeated depth indent ++ "]"

/-- The outline of a program, with `indent` for every loop around a line. -/
def Program.outlineWith (indent : String) (p : Program) : String :=
  "\n".intercalate (p.body.visits.map (Visit.line indent))

/-- The outline of a program, with two blanks for every loop around a line. -/
def Program.outline (p : Program) : String :=
  p.outlineWith "  "

end TapeLang
