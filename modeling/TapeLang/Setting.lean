import TapeLang.Decimal.Shortest
import TapeLang.Text.Printable

/-!
# Settings

A setting is a value handed in from outside, before anyone has checked that it is of the right
kind. A refused setting is shown in the message that refuses it, so the main definition is
`Setting.written`, the text of any setting.
-/

set_option autoImplicit false

namespace TapeLang

/-- A value handed in from outside. -/
inductive Setting where
  | null
  | truth (b : Bool)
  | integer (n : Int)
  | real (x : Float)
  | text (s : String)
  | list (items : List Setting)
  | record (fields : List (String × Setting))

namespace Setting

/-! ## Numbers -/

/-- A decimal with its digits set out: positionally, with at least one digit on either side of the
point, while the point stands at most three places before the first digit and at most sixteen
after it; otherwise with an exponent of at least two digits. -/
def writtenDecimal (d : Decimal.Scaled) : String :=
  let digits := Nat.toDigits 10 d.digits
  let point : Int := digits.length + d.exponent
  let text := String.ofList
  let zeros (n : Int) := List.replicate n.toNat '0'
  if -4 < point ∧ point ≤ 16 then
    if point ≤ 0 then "0." ++ text (zeros (-point) ++ digits)
    else if digits.length ≤ point then text (digits ++ zeros (point - digits.length)) ++ ".0"
    else text (digits.take point.toNat) ++ "." ++ text (digits.drop point.toNat)
  else
    let exponent := point - 1
    let places := toString exponent.natAbs
    text (digits.take 1)
      ++ (if digits.length ≤ 1 then "" else "." ++ text (digits.drop 1))
      ++ "e" ++ (if exponent < 0 then "-" else "+")
      ++ (if places.length < 2 then "0" else "") ++ places

/-- The text of a floating-point number. -/
def writtenReal (x : Float) : String :=
  let signed (negative : Bool) (text : String) := (if negative then "-" else "") ++ text
  match Decimal.Parts.ofFloat x with
  | .nan => "nan"
  | .infinity negative => signed negative "inf"
  | .zero negative => signed negative "0.0"
  | .finite negative magnitude => signed negative (writtenDecimal magnitude.shortest)

/-! ## Texts -/

/-- A code point in lower-case hexadecimal, with leading zeros up to `width`. -/
def hexadecimal (width : Nat) (n : Nat) : String :=
  let digits := Nat.toDigits 16 n
  String.ofList (List.replicate (width - digits.length) '0' ++ digits)

/-- A character inside quotes. -/
def writtenChar (quote c : Char) : String :=
  if c = quote ∨ c = '\\' then "\\" ++ c.toString
  else if c = '\n' then "\\n"
  else if c = '\t' then "\\t"
  else if c = '\r' then "\\r"
  else if Text.isPrintable c then c.toString
  else if c.toNat < 0x100 then "\\x" ++ hexadecimal 2 c.toNat
  else if c.toNat < 0x10000 then "\\u" ++ hexadecimal 4 c.toNat
  else "\\U" ++ hexadecimal 8 c.toNat

/-- A text in single quotes, or in double quotes if it holds single quotes and no double ones. -/
def writtenText (s : String) : String :=
  let chars := s.toList
  let quote := if chars.contains '\'' && !chars.contains '"' then '"' else '\''
  quote.toString ++ String.join (chars.map (writtenChar quote)) ++ quote.toString

/-! ## All settings -/

mutual

/-- The text of a setting. -/
def written : Setting → String
  | null => "None"
  | truth true => "True"
  | truth false => "False"
  | integer n => toString n
  | real x => writtenReal x
  | text s => writtenText s
  | list items => "[" ++ ", ".intercalate (writtenItems items) ++ "]"
  | record fields => "\x7b" ++ ", ".intercalate (writtenFields fields) ++ "\x7d"

/-- The texts of the items of a list. -/
def writtenItems : List Setting → List String
  | [] => []
  | s :: rest => s.written :: writtenItems rest

/-- The texts of the fields of a record. -/
def writtenFields : List (String × Setting) → List String
  | [] => []
  | (key, s) :: rest => (writtenText key ++ ": " ++ s.written) :: writtenFields rest

end

end Setting

end TapeLang
