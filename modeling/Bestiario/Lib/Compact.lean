import Bestiario.Lib.Timestamp

/-! # Timestamps in one run of characters

    `%Y%m%dT%H%M%SZ`: the digits of an instant with nothing between the parts.  The
    year is as long as it has to be, and everything after it has a fixed width, so
    the text names its instant in ANY year (`compact_inj`).  Over the years of four
    digits the texts are in the order of the instants (`compact_lt_iff`). -/

namespace Timestamp

open Calendar

/-! ## The order of the parts -/

/-- A day of a month, counted from its first. -/
theorem Date.toDays_day (year month day : Int) :
    Date.toDays ⟨year, month, day⟩ = Date.toDays ⟨year, month, 1⟩ + (day - 1) := by
  simp only [Date.toDays]
  omega

theorem monthStart_strictMono : StrictMono monthStart :=
  strictMono_int_of_lt_succ monthStart_lt_succ

/-- Of two days the earlier has the earlier year, or month, or day. -/
theorem ofDays_lt {n n' : Int} (h : n < n') :
    (Date.ofDays n).year < (Date.ofDays n').year
      ∨ (Date.ofDays n).year = (Date.ofDays n').year
        ∧ ((Date.ofDays n).month < (Date.ofDays n').month
          ∨ (Date.ofDays n).month = (Date.ofDays n').month
            ∧ (Date.ofDays n).day < (Date.ofDays n').day) := by
  obtain ⟨hm, hm', -⟩ := Date.ofDays_bounds n
  obtain ⟨hk, hk', -⟩ := Date.ofDays_bounds n'
  have hstart := (mem_month n).1
  have hend := (mem_month n').2
  have hn : (Date.ofDays n).toDays = n := Date.toDays_ofDays n
  have hn' : (Date.ofDays n').toDays = n' := Date.toDays_ofDays n'
  generalize Date.ofDays n = d at *
  generalize Date.ofDays n' = d' at *
  have hindex : d.monthIndex ≤ d'.monthIndex := by
    by_contra hlt
    have hnext := monthStart_strictMono.monotone (show d'.monthIndex + 1 ≤ d.monthIndex by omega)
    omega
  simp only [Date.monthIndex] at hindex
  by_cases hyear : d.year < d'.year
  · exact Or.inl hyear
  · refine Or.inr ⟨by omega, ?_⟩
    by_cases hmonth : d.month < d'.month
    · exact Or.inl hmonth
    · refine Or.inr ⟨by omega, ?_⟩
      change Date.toDays ⟨d.year, d.month, d.day⟩ = n at hn
      change Date.toDays ⟨d'.year, d'.month, d'.day⟩ = n' at hn'
      rw [Date.toDays_day] at hn hn'
      rw [show d'.year = d.year by omega, show d'.month = d.month by omega] at hn'
      omega

/-! ## The text -/

/-- What follows the year. -/
def compactRest (t : DateTime) : List Char :=
  pad 2 t.date.month.toNat ++ (pad 2 t.date.day.toNat ++ 'T' :: (pad 2 t.hour.toNat
    ++ (pad 2 t.minute.toNat ++ (pad 2 t.second.toNat ++ ['Z']))))

/-- `%Y%m%dT%H%M%SZ`. -/
def compact (t : Int) : List Char :=
  yearText (DateTime.ofUnix t).date.year ++ compactRest (DateTime.ofUnix t)

theorem length_compactRest (t : DateTime) : (compactRest t).length = 12 := by
  simp only [compactRest, List.length_append, List.length_cons, length_pad, List.length_nil]

theorem dateTime_ext {a b : DateTime} (hdate : a.date = b.date) (hhour : a.hour = b.hour)
    (hminute : a.minute = b.minute) (hsecond : a.second = b.second) : a = b := by
  cases a
  cases b
  cases hdate
  cases hhour
  cases hminute
  cases hsecond
  rfl

/-- What follows the year is read back. -/
theorem compactRest_inj {t t' : Int}
    (h : compactRest (DateTime.ofUnix t) = compactRest (DateTime.ofUnix t'))
    (hyear : (DateTime.ofUnix t).date.year = (DateTime.ofUnix t').date.year) : t = t' := by
  obtain ⟨hh, hh', hm, hm', hs, hs', hmonth, hmonth', hday, hday'⟩ := ofUnix_bounds t
  obtain ⟨kh, kh', km, km', ks, ks', kmonth, kmonth', kday, kday'⟩ := ofUnix_bounds t'
  rw [compactRest, compactRest] at h
  obtain ⟨emonth, h⟩ := pad_append_inj (by omega) (by omega) h
  obtain ⟨eday, h⟩ := pad_append_inj (by omega) (by omega) h
  obtain ⟨ehour, h⟩ := pad_append_inj (by omega) (by omega) (List.cons.inj h).2
  obtain ⟨eminute, h⟩ := pad_append_inj (by omega) (by omega) h
  obtain ⟨esecond, -⟩ := pad_append_inj (by omega) (by omega) h
  have hsame : DateTime.ofUnix t = DateTime.ofUnix t' :=
    dateTime_ext (Date.ext hyear (by omega) (by omega)) (by omega) (by omega) (by omega)
  rw [← DateTime.toUnix_ofUnix t, ← DateTime.toUnix_ofUnix t', hsame]

/-- The number a padded decimal says. -/
theorem ofDigitChars_padded (zeros n : Nat) :
    Nat.ofDigitChars 10 (List.replicate zeros '0' ++ (Nat.repr n).toList) 0 = n := by
  rw [Nat.ofDigitChars_append, Nat.ofDigitChars_replicate_zero, Nat.mul_zero,
    Nat.repr_eq_ofList_toDigits, String.toList_ofList, Nat.ofDigitChars_ten_toDigits]

/-- A year of four digits starts with a digit, and any other with its sign. -/
theorem yearText_ne {y y' : Int} (h : 0 ≤ y ∧ y ≤ 9999) (h' : ¬ (0 ≤ y' ∧ y' ≤ 9999)) :
    yearText y ≠ yearText y' := by
  intro heq
  rw [yearText, yearText, if_pos h, if_neg h'] at heq
  have hdigit : (if y' < 0 then '-' else '+').isDigit = true :=
    pad_isDigit 4 y.toNat _ (heq ▸ List.mem_cons_self)
  split_ifs at hdigit
  · exact absurd hdigit (by decide)
  · exact absurd hdigit (by decide)

/-- **A YEAR IS READ BACK**, of however many digits. -/
theorem yearText_injective : Function.Injective yearText := by
  intro y y' heq
  by_cases h : 0 ≤ y ∧ y ≤ 9999
  · by_cases h' : 0 ≤ y' ∧ y' ≤ 9999
    · exact yearText_inj heq h h'
    · exact absurd heq (yearText_ne h h')
  · by_cases h' : 0 ≤ y' ∧ y' ≤ 9999
    · exact absurd heq.symm (yearText_ne h' h)
    · rw [yearText, yearText, if_neg h, if_neg h'] at heq
      obtain ⟨hsign, hdigits⟩ := List.cons.inj heq
      have habs : y.natAbs = y'.natAbs := by
        have hread := congrArg (fun text => Nat.ofDigitChars 10 text 0) hdigits
        simpa only [ofDigitChars_padded] using hread
      split_ifs at hsign
      · omega
      · exact absurd hsign (by decide)
      · exact absurd hsign (by decide)
      · omega

/-- **A COMPACT TIMESTAMP NAMES ITS INSTANT**, in any year. -/
theorem compact_inj : Function.Injective compact := by
  intro t t' heq
  rw [compact, compact] at heq
  obtain ⟨hyear, hrest⟩ := List.append_inj' heq
    ((length_compactRest _).trans (length_compactRest _).symm)
  exact compactRest_inj hrest (yearText_injective hyear)

/-- One part is the smaller, or it is the same and the rest is. -/
theorem pad_lt_or {width m n : Nat} {rest rest' : List Char} (hn : n < 10 ^ width)
    (h : m < n ∨ m = n ∧ rest < rest') : pad width m ++ rest < pad width n ++ rest' := by
  rcases h with hlt | ⟨rfl, hrest⟩
  · exact pad_append_lt hlt hn
  · exact List.append_left_lt hrest

/-- Of two instants the earlier is the smaller text. -/
theorem compact_lt {t t' : Int} (h : FourDigit t) (h' : FourDigit t') (hlt : t < t') :
    compact t < compact t' := by
  obtain ⟨hh, hh', hm, hm', hs, hs', hmonth, hmonth', hday, hday'⟩ := ofUnix_bounds t
  obtain ⟨kh, kh', km, km', ks, ks', kmonth, kmonth', kday, kday'⟩ := ofUnix_bounds t'
  have hdate : t / 86400 < t' / 86400 ∨ t / 86400 = t' / 86400 := by omega
  obtain ⟨hlow, hhigh⟩ := h
  obtain ⟨klow, khigh⟩ := h'
  rw [compact, compact, yearText, if_pos ⟨hlow, hhigh⟩, yearText, if_pos ⟨klow, khigh⟩]
  refine pad_lt_or (by omega) ?_
  rcases hdate with hearlier | hsame
  · have hparts := ofDays_lt hearlier
    change (DateTime.ofUnix t).date.year < (DateTime.ofUnix t').date.year
      ∨ (DateTime.ofUnix t).date.year = (DateTime.ofUnix t').date.year
        ∧ ((DateTime.ofUnix t).date.month < (DateTime.ofUnix t').date.month
          ∨ (DateTime.ofUnix t).date.month = (DateTime.ofUnix t').date.month
            ∧ (DateTime.ofUnix t).date.day < (DateTime.ofUnix t').date.day) at hparts
    rcases hparts with hyear | ⟨hyear, hmon | ⟨hmon, hd⟩⟩
    · exact Or.inl (by omega)
    · exact Or.inr ⟨by omega, pad_lt_or (by omega) (Or.inl (by omega))⟩
    · exact Or.inr ⟨by omega, pad_lt_or (by omega) (Or.inr ⟨by omega,
        pad_lt_or (by omega) (Or.inl (by omega))⟩)⟩
  · have heq : (DateTime.ofUnix t).date = (DateTime.ofUnix t').date := by
      rw [DateTime.ofUnix, DateTime.ofUnix, hsame]
    have hclock : (DateTime.ofUnix t).hour < (DateTime.ofUnix t').hour
        ∨ (DateTime.ofUnix t).hour = (DateTime.ofUnix t').hour
          ∧ ((DateTime.ofUnix t).minute < (DateTime.ofUnix t').minute
            ∨ (DateTime.ofUnix t).minute = (DateTime.ofUnix t').minute
              ∧ (DateTime.ofUnix t).second < (DateTime.ofUnix t').second) := by
      simp only [DateTime.ofUnix]
      omega
    rw [compactRest, compactRest, heq]
    refine Or.inr ⟨rfl, List.append_left_lt (List.append_left_lt
      (List.cons_lt_cons_iff.mpr (Or.inr ⟨rfl, ?_⟩)))⟩
    rcases hclock with hhour | ⟨hhour, hmin | ⟨hmin, hsec⟩⟩
    · exact pad_lt_or (by omega) (Or.inl (by omega))
    · exact pad_lt_or (by omega) (Or.inr ⟨by omega,
        pad_lt_or (by omega) (Or.inl (by omega))⟩)
    · exact pad_lt_or (by omega) (Or.inr ⟨by omega, pad_lt_or (by omega) (Or.inr ⟨by omega,
        pad_lt_or (by omega) (Or.inl (by omega))⟩)⟩)

/-- **COMPACT TIMESTAMPS ARE IN THE ORDER OF THEIR INSTANTS**, over the years of four
    digits. -/
theorem compact_lt_iff {t t' : Int} (h : FourDigit t) (h' : FourDigit t') :
    compact t < compact t' ↔ t < t' := by
  constructor
  · intro hlt
    by_contra hle
    rcases eq_or_lt_of_le (not_lt.mp hle) with rfl | hback
    · exact absurd hlt (List.lt_irrefl _)
    · exact absurd (compact_lt h' h hback) (List.lt_asymm hlt)
  · exact compact_lt h h'

end Timestamp
