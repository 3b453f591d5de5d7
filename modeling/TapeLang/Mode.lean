import TapeLang.Setting

/-!
# Modes

A pipeline hands the tree of a program to one of two back ends.
-/

set_option autoImplicit false

namespace TapeLang

/-- The back end of a pipeline. -/
inductive Mode where
  | interpret
  | compile
  deriving DecidableEq, Repr

namespace Mode

/-- The word for a mode. -/
def word : Mode → String
  | interpret => "interpret"
  | compile => "compile"

/-- The word for a mode at the beginning of a sentence. -/
def title : Mode → String
  | interpret => "Interpret"
  | compile => "Compile"

/-- The mode a setting names. -/
def ofSetting? : Setting → Option Mode
  | .text "interpret" => some interpret
  | .text "compile" => some compile
  | _ => none

/-- The text shown for a setting that names no mode. -/
def refusal (given : Setting) : String :=
  given.written ++ " is not a valid Mode"

end Mode

end TapeLang
