import Bestiario.Lib.Rounding
import Bestiario.Lib.Running
import Bestiario.Volume

/-! # The average ticket

    `mean_sats` of `crates/stats/src/volume.rs`: a mean of `i64` sizes worked out in
    `i128`.  Two things can go wrong with it and neither does: a step of it may
    leave the word it is worked out in, and the mean may leave the word it is
    handed back in. -/

namespace Stats

open Rounding Running

/-! ## In words -/

namespace I128

/-- What an `i128` operation gives, where that fits. -/
def fit (n : Int) : Option Int := if -2 ^ 127 ≤ n ∧ n < 2 ^ 127 then some n else none

/-- `div_euclid`: not by zero. -/
def divEuclid (a b : Int) : Option Int := if b = 0 then none else fit (a / b)

/-- `sum`: from zero, one size after another. -/
def sum (sizes : List Int) : Option Int :=
  sizes.foldl (checked (-2 ^ 127) (2 ^ 127)) (some 0)

theorem fit_of {n : Int} (hlo : -2 ^ 127 ≤ n) (hhi : n < 2 ^ 127) : fit n = some n := by
  rw [fit, if_pos ⟨hlo, hhi⟩]

end I128

/-- `try_into`: an `i128` that is an `i64`. -/
def narrowed (n : Int) : Option Int := if -2 ^ 63 ≤ n ∧ n < 2 ^ 63 then some n else none

/-- `mean_sats` with every `i128` operation checked: `none` once one overflows. -/
def meanSatsChecked (sizes : List Int) : Option (Option Int) :=
  if sizes.isEmpty then some none
  else do
    let n ← I128.fit sizes.length
    let sum ← I128.sum sizes
    let doubled ← I128.fit (2 * sum)
    let dividend ← I128.fit (doubled + n)
    let divisor ← I128.fit (2 * n)
    let mean ← I128.divEuclid dividend divisor
    return narrowed mean

variable {sizes : List Int}

/-- The mean, once every operation has given something. -/
theorem meanSatsChecked_of {n sum doubled dividend divisor mean : Int} (hne : sizes ≠ [])
    (hn : I128.fit sizes.length = some n) (hsum : I128.sum sizes = some sum)
    (hdoubled : I128.fit (2 * sum) = some doubled)
    (hdividend : I128.fit (doubled + n) = some dividend)
    (hdivisor : I128.fit (2 * n) = some divisor)
    (hmean : I128.divEuclid dividend divisor = some mean) :
    meanSatsChecked sizes = some (narrowed mean) := by
  rw [meanSatsChecked, if_neg (by simpa using hne)]
  simp only [hn, hsum, hdoubled, hdividend, hdivisor, hmean, Option.bind_eq_bind,
    Option.bind_some, Option.pure_def]

/-- `mean_sats` rounds the mean to the nearest sat, halves up. -/
theorem meanSats_eq (hne : sizes ≠ []) :
    meanSats sizes = narrowed (halfUp sizes.sum sizes.length) := by
  rw [meanSats, if_neg (by simpa using hne)]
  rfl

/-! ## Sizes of orders -/

/-- Every size is an `i64`. -/
def Sized (sizes : List Int) : Prop := ∀ size ∈ sizes, -2 ^ 63 ≤ size ∧ size < 2 ^ 63

theorem Sized.of_prefix {part : List Int} (h : Sized sizes) (hpart : part <+: sizes) :
    Sized part :=
  fun size hsize => h size (hpart.subset hsize)

/-- As many sizes as that add up to no more than a word of 128 bits doubles. -/
theorem Sized.sum_within (h : Sized sizes) (hlength : sizes.length < 2 ^ 62) :
    -2 ^ 125 ≤ sizes.sum ∧ sizes.sum ≤ 2 ^ 125 := by
  have hleast : sizes.length * (-2 ^ 63) ≤ sizes.sum :=
    length_mul_le_sum fun size hsize => (h size hsize).1
  have hgreatest : sizes.sum ≤ sizes.length * 2 ^ 63 :=
    sum_le_length_mul fun size hsize => (h size hsize).2.le
  constructor
  · omega
  · omega

theorem Sized.sum_eq (h : Sized sizes) (hlength : sizes.length < 2 ^ 62) :
    I128.sum sizes = some sizes.sum := by
  rw [I128.sum, foldl_checked_within, Int.zero_add]
  intro part hpart
  have hpartial := (h.of_prefix hpart).sum_within (hpart.length_le.trans_lt hlength)
  omega

/-- The mean of `i64`s is an `i64`. -/
theorem Sized.narrowed_halfUp (h : Sized sizes) (hne : sizes ≠ []) :
    narrowed (halfUp sizes.sum sizes.length) = some (halfUp sizes.sum sizes.length) := by
  have hbetween := halfUp_between hne (fun size hsize => (h size hsize).1)
    fun size hsize => Int.le_sub_one_of_lt (h size hsize).2
  rw [narrowed, if_pos ⟨hbetween.1, Int.lt_of_le_sub_one hbetween.2⟩]

/-- **NO OVERFLOW**: no step of it leaves a word of 128 bits. -/
theorem Sized.meanSatsChecked_eq (h : Sized sizes) (hne : sizes ≠ [])
    (hlength : sizes.length < 2 ^ 62) : meanSatsChecked sizes = some (meanSats sizes) := by
  have hcount : 0 < sizes.length := List.length_pos_iff.mpr hne
  have hsum := h.sum_within hlength
  have hbetween := halfUp_between hne (fun size hsize => (h size hsize).1)
    fun size hsize => (h size hsize).2.le
  have hn : I128.fit sizes.length = some (sizes.length : Int) :=
    I128.fit_of (by omega) (by omega)
  have hdoubled : I128.fit (2 * sizes.sum) = some (2 * sizes.sum) :=
    I128.fit_of (by omega) (by omega)
  have hdividend : I128.fit (2 * sizes.sum + sizes.length) = some (2 * sizes.sum + sizes.length) :=
    I128.fit_of (by omega) (by omega)
  have hdivisor : I128.fit (2 * sizes.length) = some (2 * sizes.length : Int) :=
    I128.fit_of (by omega) (by omega)
  have hmean : I128.divEuclid (2 * sizes.sum + sizes.length) (2 * sizes.length)
      = some (halfUp sizes.sum sizes.length) := by
    rw [I128.divEuclid, if_neg (by omega), ← halfUp]
    exact I128.fit_of (by omega) (by omega)
  rw [meanSats_eq hne]
  exact meanSatsChecked_of hne hn (h.sum_eq hlength) hdoubled hdividend hdivisor hmean

/-! ## The mean -/

/-- **THE AVERAGE TICKET IS EXACT**: over `i64` sizes, fewer than 2 ^ 62 of them, the
    mean is there, it is the greatest whole number at most a half over the quotient,
    it lies between the least and the greatest size, and nothing overflows. -/
theorem mean_sats_exact (sizes : List Int) (hne : sizes ≠ []) (hsized : Sized sizes)
    (hlength : sizes.length < 2 ^ 62) :
    ∃ mean, meanSats sizes = some mean
      ∧ mean = ⌊(sizes.sum : ℚ) / sizes.length + 1 / 2⌋
      ∧ (∃ least ∈ sizes.min?, least ≤ mean) ∧ (∃ greatest ∈ sizes.max?, mean ≤ greatest)
      ∧ meanSatsChecked sizes = some (some mean) := by
  have hcount : 0 < sizes.length := List.length_pos_iff.mpr hne
  have hmean : meanSats sizes = some (halfUp sizes.sum sizes.length) := by
    rw [meanSats_eq hne, hsized.narrowed_halfUp hne]
  obtain ⟨least, hleast⟩ := Option.isSome_iff_exists.mp (List.isSome_min?_of_ne_nil hne)
  obtain ⟨greatest, hgreatest⟩ := Option.isSome_iff_exists.mp (List.isSome_max?_of_ne_nil hne)
  have hbetween := halfUp_between hne (List.min?_eq_some_iff.mp hleast).2
    (List.max?_eq_some_iff.mp hgreatest).2
  refine ⟨halfUp sizes.sum sizes.length, hmean, halfUp_eq_floor hcount,
    ⟨least, hleast, hbetween.1⟩, ⟨greatest, hgreatest, hbetween.2⟩, ?_⟩
  rw [hsized.meanSatsChecked_eq hne hlength, hmean]

/-- Both ends of `i64` at once: their mean, half a sat under nothing, is nothing. -/
theorem mean_sats_exact_ends :
    ∃ mean, meanSats [-2 ^ 63, 2 ^ 63 - 1] = some mean
      ∧ mean = ⌊(([-2 ^ 63, 2 ^ 63 - 1] : List Int).sum : ℚ)
          / ([-2 ^ 63, 2 ^ 63 - 1] : List Int).length + 1 / 2⌋
      ∧ (∃ least ∈ ([-2 ^ 63, 2 ^ 63 - 1] : List Int).min?, least ≤ mean)
      ∧ (∃ greatest ∈ ([-2 ^ 63, 2 ^ 63 - 1] : List Int).max?, mean ≤ greatest)
      ∧ meanSatsChecked [-2 ^ 63, 2 ^ 63 - 1] = some (some mean) :=
  mean_sats_exact [-2 ^ 63, 2 ^ 63 - 1] (by decide) (by unfold Sized; decide) (by decide)

end Stats
