import TapeLang.Setting

/-!
# Tape configurations

A tape has a fixed length and an edge policy. Both back ends take the same configuration.
`TapeConfig.ofSettings` checks what is handed in from outside: the length first, then its upper
bound, then the policy, each with the default if nothing is handed in.

The truth value `True` passes for the length one. It keeps its spelling wherever the length is
written as it was given.
-/

set_option autoImplicit false

namespace TapeLang

/-- What happens at the edges of the tape and of a cell. -/
inductive Policy where
  /-- Both the pointer and the cells wrap around. -/
  | wrapping
  /-- Operations past an edge are refused. -/
  | bounded
  deriving DecidableEq, Repr

namespace Policy

/-- The word for a policy. -/
def word : Policy → String
  | wrapping => "wrapping"
  | bounded => "bounded"

/-- The policy a setting names. -/
def ofSetting? : Setting → Option Policy
  | .text "wrapping" => some wrapping
  | .text "bounded" => some bounded
  | _ => none

end Policy

/-- A tape length as it was given. -/
inductive TapeLength where
  /-- A number of cells. -/
  | number (n : Nat)
  /-- The truth value `True`, which counts as one. -/
  | truth
  deriving DecidableEq, Repr

namespace TapeLength

/-- The number of cells. -/
def cells : TapeLength → Nat
  | number n => n
  | truth => 1

/-- The length as it was given. -/
def text : TapeLength → String
  | number n => toString n
  | truth => "True"

end TapeLength

/-- The greatest tape length. -/
def maxTapeLength : Nat := Nat.pow 2 31 - 1

/-- A tape length and an edge policy. -/
structure TapeConfig where
  policy : Policy := .bounded
  length : TapeLength := .number 30000
  one_le : 1 ≤ length.cells := by decide
  le_max : length.cells ≤ maxTapeLength := by decide
  deriving DecidableEq, Repr

namespace TapeConfig

/-- Whether the tape and its cells wrap around. -/
def wraps (c : TapeConfig) : Bool :=
  c.policy == .wrapping

/-- Whether the number of cells is a power of two. -/
def isPowerOfTwo (c : TapeConfig) : Bool :=
  c.length.cells &&& (c.length.cells - 1) == 0

/-- The test for a power of two is exact, since a tape has at least one cell. -/
theorem isPowerOfTwo_iff (c : TapeConfig) :
    c.isPowerOfTwo = true ↔ c.length.cells.isPowerOfTwo := by
  have hpos : c.length.cells ≠ 0 := Nat.ne_of_gt c.one_le
  rw [isPowerOfTwo, beq_iff_eq]
  exact Nat.and_sub_one_eq_zero_iff_isPowerOfTwo hpos

end TapeConfig

/-! ## Configurations from settings -/

/-- Why settings are refused. -/
inductive ConfigError where
  | lengthNotPositive (given : Setting)
  | lengthTooGreat (given : Nat)
  | unknownPolicy (given : Setting)

/-- The text shown for refused settings. -/
def ConfigError.message : ConfigError → String
  | lengthNotPositive given => "Tape length must be a positive integer, got " ++ given.written
  | lengthTooGreat given =>
      "Tape length must not exceed " ++ toString maxTapeLength ++ ", got " ++ toString given
  | unknownPolicy given => given.written ++ " is not a valid PointerPolicy"

/-- The length a setting gives, at least one. -/
def TapeLength.ofSetting (s : Setting) : Except ConfigError { l : TapeLength // 1 ≤ l.cells } :=
  match s with
  | .truth true => .ok ⟨.truth, Nat.le_refl 1⟩
  | .integer n =>
      if h : 1 ≤ n then .ok ⟨.number n.toNat, by simp only [TapeLength.cells]; omega⟩
      else .error (.lengthNotPositive s)
  | _ => .error (.lengthNotPositive s)

/-- The configuration that settings give. -/
def TapeConfig.ofSettings (policy length : Option Setting) : Except ConfigError TapeConfig := do
  let ⟨l, one_le⟩ ←
    match length with
    | none => .ok ⟨.number 30000, by decide⟩
    | some s => TapeLength.ofSetting s
  if le_max : l.cells ≤ maxTapeLength then
    match policy with
    | none => .ok { length := l, one_le, le_max }
    | some s =>
        match Policy.ofSetting? s with
        | none => .error (.unknownPolicy s)
        | some p => .ok { policy := p, length := l, one_le, le_max }
  else .error (.lengthTooGreat l.cells)

end TapeLang
