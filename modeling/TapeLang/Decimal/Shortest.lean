/-!
# The fewest digits that read back

A binary floating-point number is written with as few decimal digits as identify it: of all
decimals that are nearer to the number than to any other floating-point number, one with the fewest
digits, and of those the nearest to the number itself.

A finite number is `mantissa * 2 ^ exponent`. The search goes through the grids of one, two, up to
seventeen significant digits and tries the two points of each grid that enclose the number. All
comparisons are exact, in natural numbers.
-/

set_option autoImplicit false

namespace TapeLang.Decimal

/-- A decimal `digits * 10 ^ exponent`. -/
structure Scaled where
  digits : Nat
  exponent : Int
  deriving DecidableEq, Repr

/-- A positive binary number `mantissa * 2 ^ exponent`, and whether its lower neighbour is half as
far away as its upper one, as it is at a power of two. -/
structure Binary where
  mantissa : Nat
  exponent : Int
  narrowBelow : Bool
  deriving DecidableEq, Repr

/-- The numerator and denominator of `base ^ e`. -/
def power (base : Nat) (e : Int) : Nat × Nat :=
  if 0 ≤ e then (base.pow e.toNat, 1) else (1, base.pow (-e).toNat)

/-- The exponent of the leading decimal digit of a positive number. The number is scaled until
every representable one has a digit before the point. -/
def Binary.leading (b : Binary) : Int :=
  let (num, den) := power 2 b.exponent
  let scaled := b.mantissa * num * Nat.pow 10 330 / den
  ((Nat.toDigits 10 scaled).length : Int) - 331

/-- The nearest decimal on the grid of `10 ^ k` that reads back as `b`, if there is one. -/
def Binary.onGrid? (b : Binary) (k : Int) : Option Scaled :=
  -- In quarters of the last binary place, and scaled to the grid, a quarter is `num / den`.
  let (binaryNum, binaryDen) := power 2 (b.exponent - 2)
  let (gridNum, gridDen) := power 10 k
  let num := binaryNum * gridDen
  let den := binaryDen * gridNum
  let value := 4 * b.mantissa * num
  let low := (4 * b.mantissa - if b.narrowBelow then 1 else 2) * num
  let high := (4 * b.mantissa + 2) * num
  let readsBack (c : Nat) : Bool :=
    if b.mantissa % 2 = 0 then low ≤ c * den && c * den ≤ high
    else low < c * den && c * den < high
  let down := value / den
  let up := down + 1
  let rounded :=
    match compare (value - down * den) (up * den - value) with
    | .lt => down
    | .gt => up
    | .eq => if down % 2 = 0 then down else up
  let other := if rounded = down then up else down
  if readsBack rounded then some ⟨rounded, k⟩
  else if readsBack other then some ⟨other, k⟩
  else none

/-- The same decimal without a zero at its end. -/
def Scaled.trimmed (d : Scaled) : Scaled :=
  if d.digits % 10 = 0 then ⟨d.digits / 10, d.exponent + 1⟩ else d

/-- The shortest decimal that reads back as `b`; seventeen digits always suffice. Where the digit
nine is rounded up, a single zero is left to trim. -/
def Binary.shortest (b : Binary) : Scaled :=
  let grids := (List.range 17).map fun (n : Nat) => b.leading - n
  (grids.findSome? b.onGrid?).elim ⟨0, 0⟩ Scaled.trimmed

/-- The parts of a floating-point number. -/
inductive Parts where
  | nan
  | infinity (negative : Bool)
  | zero (negative : Bool)
  | finite (negative : Bool) (magnitude : Binary)
  deriving DecidableEq, Repr

/-- Take a floating-point number apart along the fields of its encoding. -/
def Parts.ofFloat (x : Float) : Parts :=
  let bits := x.toBits.toNat
  let negative := bits / Nat.pow 2 63 = 1
  let exponent := bits / Nat.pow 2 52 % Nat.pow 2 11
  let fraction := bits % Nat.pow 2 52
  if exponent = Nat.pow 2 11 - 1 then
    if fraction = 0 then .infinity negative else .nan
  else if exponent = 0 then
    if fraction = 0 then .zero negative else .finite negative ⟨fraction, -1074, false⟩
  else
    .finite negative
      ⟨Nat.pow 2 52 + fraction, (exponent : Int) - 1075, fraction = 0 && 1 < exponent⟩

end TapeLang.Decimal
