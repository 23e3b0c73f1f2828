import CodeAtlas.Numeric.Floating
import Mathlib.Tactic.Ring

/-!
# Values that need no rounding

Rounding leaves a quotient alone that a format can hold: the value found is that quotient, whatever
the numerator and the denominator it was given by. A format with a longer mantissa and a wider range
holds every value of the narrower one, so a value that is widened and rounded back is the same
value.
-/

namespace CodeAtlas.Numeric

variable {f g : Format}

theorem roundQuotient_mul {b : Nat} (m : Nat) (positive : 0 < b) : roundQuotient (m * b) b = m := by
  simp [roundQuotient, Nat.mul_div_cancel _ positive, positive]

theorem log2_mul_two_pow {m : Nat} (k : Nat) (ne : m ≠ 0) : (m * 2 ^ k).log2 = m.log2 + k := by
  have positive : 0 < 2 ^ k := Nat.two_pow_pos k
  have product : m * 2 ^ k ≠ 0 := Nat.mul_ne_zero ne positive.ne'
  rw [Nat.log2_eq_iff product, Nat.add_right_comm, Nat.pow_add, Nat.pow_add]
  exact ⟨Nat.mul_le_mul_right _ (Nat.log2_self_le ne),
    Nat.mul_lt_mul_of_pos_right Nat.lt_log2_self positive⟩

namespace Floating

/-- The magnitude in smallest units of the format. -/
def units (x : Floating f) : Nat := x.mantissa * 2 ^ x.exponent

theorem magnitude_eq (x : Floating f) : x.magnitude = (x.units, 2 ^ f.scale) := by
  simp only [magnitude, units, Nat.pow_eq]

theorem excess_units (x : Floating f) : excess f x.units = x.exponent := by
  have bound : x.mantissa < 2 ^ (f.precision + 1) := x.mantissa_lt
  by_cases zero : x.mantissa = 0
  · have exponent : x.exponent = 0 := by
      refine x.normal.resolve_right fun large => ?_
      rw [zero] at large
      exact absurd large (Nat.not_le.2 (Nat.two_pow_pos _))
    simp [excess, units, zero, exponent]
  · have log : x.units.log2 = x.mantissa.log2 + x.exponent := log2_mul_two_pow _ zero
    have upper : x.mantissa.log2 < f.precision + 1 := (Nat.log2_lt zero).2 bound
    rw [excess, log]
    rcases x.normal with exponent | large
    · omega
    · have lower : f.precision ≤ x.mantissa.log2 := (Nat.le_log2 zero).2 large
      omega

/-- A quotient equal to a value of the format is rounded to that value. -/
theorem round_eq_some (x : Floating f) {num den : Nat} (positive : 0 < den)
    (exact : num * 2 ^ f.scale = x.units * den) : round f x.negative num den = some x := by
  have quotient : num * Nat.pow 2 f.scale / den = x.units := by
    rw [Nat.pow_eq, exact, Nat.mul_div_cancel _ positive]
  have exponent : excess f (num * Nat.pow 2 f.scale / den) = x.exponent := by
    rw [quotient, excess_units]
  have mantissa :
      roundQuotient (num * Nat.pow 2 f.scale) (den * Nat.pow 2 x.exponent) = x.mantissa := by
    have regroup : x.units * den = x.mantissa * (den * 2 ^ x.exponent) := by rw [units]; ring
    rw [Nat.pow_eq, Nat.pow_eq, exact, regroup]
    exact roundQuotient_mul _ (Nat.mul_pos positive (Nat.two_pow_pos _))
  simp only [round, exponent, mantissa, dif_pos x.mantissa_lt, dif_pos x.exponent_le]

/-- Every value of a format is a value of a longer and wider one. -/
theorem exists_units_eq (x : Floating f) (precision : f.precision ≤ g.precision)
    (top : f.top + (g.scale - f.scale) ≤ g.top) :
    ∃ y : Floating g, y.negative = x.negative ∧ y.units = x.units * 2 ^ (g.scale - f.scale) := by
  by_cases zero : x.mantissa = 0
  · exact ⟨.zero g x.negative, rfl, by simp [units, Floating.zero, zero]⟩
  · have bound : x.mantissa < 2 ^ (x.mantissa.log2 + 1) := Nat.lt_log2_self
    have short : x.mantissa.log2 < f.precision + 1 := (Nat.log2_lt zero).2 x.mantissa_lt
    have exponent_le := x.exponent_le
    -- as much of the power of two as fits goes into the mantissa
    obtain ⟨up, exponent, sum, fits, normal⟩ :
        ∃ up exponent, up + exponent = x.exponent + (g.scale - f.scale) ∧
          x.mantissa.log2 + up ≤ g.precision ∧
            (exponent = 0 ∨ x.mantissa.log2 + up = g.precision) := by
      by_cases small : x.mantissa.log2 + (x.exponent + (g.scale - f.scale)) ≤ g.precision
      · exact ⟨_, 0, rfl, small, .inl rfl⟩
      · exact ⟨g.precision - x.mantissa.log2,
          x.exponent + (g.scale - f.scale) - (g.precision - x.mantissa.log2), by omega, by omega,
          .inr (by omega)⟩
    have mantissa_lt : x.mantissa * 2 ^ up < 2 ^ (g.precision + 1) := calc
      x.mantissa * 2 ^ up < 2 ^ (x.mantissa.log2 + 1) * 2 ^ up :=
        Nat.mul_lt_mul_of_pos_right bound (Nat.two_pow_pos up)
      _ = 2 ^ (x.mantissa.log2 + 1 + up) := (Nat.pow_add ..).symm
      _ ≤ 2 ^ (g.precision + 1) := Nat.pow_le_pow_right (by decide) (by omega)
    have large (full : x.mantissa.log2 + up = g.precision) :
        2 ^ g.precision ≤ x.mantissa * 2 ^ up := by
      rw [← full, Nat.pow_add]
      exact Nat.mul_le_mul_right _ (Nat.log2_self_le zero)
    refine ⟨⟨x.negative, x.mantissa * 2 ^ up, exponent, mantissa_lt, by omega,
      normal.imp_right large⟩, rfl, ?_⟩
    show x.mantissa * 2 ^ up * 2 ^ exponent = x.mantissa * 2 ^ x.exponent * 2 ^ (g.scale - f.scale)
    rw [Nat.mul_assoc, ← Nat.pow_add, sum, Nat.pow_add, Nat.mul_assoc]

/-- A value can be taken to a wider format and back. -/
theorem exists_widened (x : Floating f) (precision : f.precision ≤ g.precision)
    (scale : f.scale ≤ g.scale) (top : f.top + (g.scale - f.scale) ≤ g.top) :
    ∃ y : Floating g, round g x.negative x.magnitude.1 x.magnitude.2 = some y ∧
      round f y.negative y.magnitude.1 y.magnitude.2 = some x := by
  obtain ⟨y, sign, same⟩ := exists_units_eq x precision top
  have equal : x.units * 2 ^ g.scale = y.units * 2 ^ f.scale := by
    rw [same, Nat.mul_assoc, ← Nat.pow_add, Nat.sub_add_cancel scale]
  refine ⟨y, ?_, ?_⟩
  · rw [magnitude_eq, ← sign]
    exact round_eq_some y (Nat.two_pow_pos _) equal
  · rw [magnitude_eq, sign]
    exact round_eq_some x (Nat.two_pow_pos _) equal.symm

end Floating

end CodeAtlas.Numeric
