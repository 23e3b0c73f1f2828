/-!
# Binary floating-point values

A value of a floating-point format is a sign, a whole number of units and a binary exponent. The
fields are ordinary numbers and the format's bounds are part of the type, so a value can be compared
with `=` and every operation is exact arithmetic on natural numbers followed by one rounding.

Only two operations are needed here: rounding a quotient to the nearest value of a format, a tie
going to the value with an even mantissa, and reading a value back as a quotient.
-/

namespace CodeAtlas.Numeric

/-- A binary format. Its smallest positive value is `2 ^ -scale`, its mantissas have at most
`precision + 1` bits, and `top` is the largest exponent above the smallest unit. -/
structure Format where
  precision : Nat
  scale : Nat
  top : Nat

/-- The format with a 24-bit mantissa. -/
def Format.single : Format := ⟨23, 149, 253⟩

/-- The format with a 53-bit mantissa. -/
def Format.double : Format := ⟨52, 1074, 2045⟩

/-- A finite value `± mantissa * 2 ^ exponent * 2 ^ -scale`, in the one form the format allows for
it. -/
structure Floating (f : Format) where
  negative : Bool
  mantissa : Nat
  exponent : Nat
  mantissa_lt : mantissa < Nat.pow 2 (f.precision + 1)
  exponent_le : exponent ≤ f.top
  normal : exponent = 0 ∨ Nat.pow 2 f.precision ≤ mantissa
deriving DecidableEq

namespace Floating

variable {f : Format}

/-- The magnitude as a quotient of natural numbers. -/
def magnitude (x : Floating f) : Nat × Nat :=
  (x.mantissa * Nat.pow 2 x.exponent, Nat.pow 2 f.scale)

/-- Zero, with a sign. -/
def zero (f : Format) (negative : Bool) : Floating f :=
  ⟨negative, 0, 0, Nat.two_pow_pos _, Nat.zero_le _, .inl rfl⟩

def isZero (x : Floating f) : Bool := x.mantissa == 0

end Floating

/-- The quotient `a / b` as a whole number: the nearest one, and the even one of two equally
near. -/
def roundQuotient (a b : Nat) : Nat :=
  let q := a / b
  let r := a % b
  if 2 * r < b then q
  else if b < 2 * r then q + 1
  else q + q % 2

theorem le_roundQuotient (a b : Nat) : a / b ≤ roundQuotient a b := by
  unfold roundQuotient
  grind

/-- How far a magnitude of `q` smallest units has to be shifted to fit the mantissa. -/
def excess (f : Format) (q : Nat) : Nat := Nat.log2 q - f.precision

theorem le_div_excess (f : Format) (q : Nat) (h : 0 < excess f q) :
    Nat.pow 2 f.precision ≤ q / Nat.pow 2 (excess f q) := by
  rw [Nat.pow_eq, Nat.pow_eq, Nat.le_div_iff_mul_le (Nat.two_pow_pos _), ← Nat.pow_add]
  have hq : q ≠ 0 := by
    intro hq
    simp [excess, hq] at h
  refine Nat.le_trans (Nat.pow_le_pow_right (by decide) ?_) (Nat.log2_self_le hq)
  unfold excess at h ⊢
  omega

/-- The value of a format nearest to `± num / den`, or nothing when that lies beyond the largest
one. -/
def Floating.round (f : Format) (negative : Bool) (num den : Nat) : Option (Floating f) :=
  let units := num * Nat.pow 2 f.scale / den
  let e := excess f units
  let m := roundQuotient (num * Nat.pow 2 f.scale) (den * Nat.pow 2 e)
  have quot : num * Nat.pow 2 f.scale / (den * Nat.pow 2 e) = units / Nat.pow 2 e :=
    (Nat.div_div_eq_div_mul ..).symm
  have low : units / Nat.pow 2 e ≤ m := quot ▸ le_roundQuotient _ _
  if fits : m < Nat.pow 2 (f.precision + 1) then
    if he : e ≤ f.top then
      some ⟨negative, m, e, fits, he, by
        rcases Nat.eq_zero_or_pos e with h | h
        · exact .inl h
        · exact .inr (Nat.le_trans (le_div_excess f units h) low)⟩
    else none
  else if he : e + 1 ≤ f.top then
    some ⟨negative, Nat.pow 2 f.precision, e + 1, Nat.pow_lt_pow_right (by decide) (by omega), he,
      .inr (Nat.le_refl _)⟩
  else none

end CodeAtlas.Numeric
