import Mathlib

/-! # Rounding a mean

    The mean of whole numbers to the nearest whole one, halves up, found without
    leaving the whole numbers: twice the sum and once the count, divided downwards
    by twice the count. -/

namespace Rounding

/-- The quotient of `sum` by `count` to the nearest, halves up. -/
def halfUp (sum : Int) (count : Nat) : Int := (2 * sum + count) / (2 * count)

variable {sum bound : Int} {count : Nat}

/-- **HALVES UP**: the greatest whole number at most a half over the quotient. -/
theorem halfUp_eq_floor (hcount : 0 < count) :
    halfUp sum count = ⌊(sum : ℚ) / count + 1 / 2⌋ := by
  have hpos : (0 : ℚ) < count := Nat.cast_pos.mpr hcount
  have hsame : (sum : ℚ) / count + 1 / 2
      = ((2 * sum + count : Int) : ℚ) / ((2 * count : Nat) : ℚ) := by
    push_cast
    field_simp
  rw [hsame, Rat.floor_intCast_div_natCast, halfUp]
  push_cast
  rfl

/-- A mean rounds to no less than a whole number it is not under. -/
theorem le_halfUp (hcount : 0 < count) (h : count * bound ≤ sum) : bound ≤ halfUp sum count := by
  have hpos : (0 : Int) < 2 * count := by omega
  rw [halfUp, Int.le_ediv_iff_mul_le hpos]
  calc bound * (2 * count) = 2 * (count * bound) := by ring
    _ ≤ 2 * sum + count := by omega

/-- Nor to more than one it is not over. -/
theorem halfUp_le (hcount : 0 < count) (h : sum ≤ count * bound) : halfUp sum count ≤ bound := by
  have hpos : (0 : Int) < 2 * count := by omega
  have hlt : halfUp sum count < bound + 1 := by
    rw [halfUp, Int.ediv_lt_iff_lt_mul hpos]
    calc 2 * sum + count < 2 * (count * bound) + 2 * count := by omega
      _ = (bound + 1) * (2 * count) := by ring
  omega

/-! ## The mean of a list -/

variable {xs : List Int}

theorem length_mul_le_sum (h : ∀ x ∈ xs, bound ≤ x) : xs.length * bound ≤ xs.sum := by
  have hsum := List.card_nsmul_le_sum xs bound h
  rwa [nsmul_eq_mul] at hsum

theorem sum_le_length_mul (h : ∀ x ∈ xs, x ≤ bound) : xs.sum ≤ xs.length * bound := by
  have hsum := List.sum_le_card_nsmul xs bound h
  rwa [nsmul_eq_mul] at hsum

/-- **WITHIN THE LIST**: a rounded mean is between the least and the greatest. -/
theorem halfUp_between {least greatest : Int} (hne : xs ≠ []) (hleast : ∀ x ∈ xs, least ≤ x)
    (hgreatest : ∀ x ∈ xs, x ≤ greatest) :
    least ≤ halfUp xs.sum xs.length ∧ halfUp xs.sum xs.length ≤ greatest := by
  have hcount : 0 < xs.length := List.length_pos_iff.mpr hne
  constructor
  · exact le_halfUp hcount (length_mul_le_sum hleast)
  · exact halfUp_le hcount (sum_le_length_mul hgreatest)

end Rounding
