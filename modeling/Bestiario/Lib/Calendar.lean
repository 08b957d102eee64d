import Mathlib.Tactic.Linarith
import Bestiario.Lib.Tiling

/-! # The proleptic Gregorian calendar

    Days since 1970-01-01 and the date they fall on, both ways.  The year is
    counted from the first of March, so that the leap day is the last day of a
    year, of a quadrennium and of a cycle of four centuries: a date is then a
    chain of divisions in which only the last part of each whole can be longer
    than the others.

    Instants are unix seconds, UTC, no leap second. -/

namespace Calendar

open Tiling

/-- A calendar date. -/
@[ext]
structure Date where
  year : Int
  month : Int
  day : Int
  deriving DecidableEq, Repr

/-- A date and a time of day. -/
structure DateTime where
  date : Date
  hour : Int
  minute : Int
  second : Int
  deriving DecidableEq, Repr

/-- The days of the months from March up to the month numbered `m` from it. -/
def daysBefore (m : Int) : Int := (153 * m + 2) / 5

/-- Where a day falls in the cycle of 400 years it belongs to: the century, the
    quadrennium and the year in it, counted from March, and the day. -/
structure Place where
  cycle : Int
  century : Int
  quadrennium : Int
  year : Int
  day : Int

/-- The place of the day `n` days after 1970-01-01. -/
def Place.of (n : Int) : Place :=
  let z := n + 719468
  let ofCycle := z % 146097
  let century := min 3 (ofCycle / 36524)
  let ofCentury := ofCycle - 36524 * century
  let quadrennium := ofCentury / 1461
  let ofQuadrennium := ofCentury % 1461
  let year := min 3 (ofQuadrennium / 365)
  ⟨z / 146097, century, quadrennium, year, ofQuadrennium - 365 * year⟩

/-- The month, counted from March, that holds the day of a year. -/
def monthOf (day : Int) : Int := (5 * day + 2) / 153

/-- The date of the day `n` days after 1970-01-01. -/
def Date.ofDays (n : Int) : Date :=
  let p := Place.of n
  let m := monthOf p.day
  let year := 400 * p.cycle + 100 * p.century + 4 * p.quadrennium + p.year
  { year := if m < 10 then year else year + 1
    month := if m < 10 then m + 3 else m - 9
    day := p.day - daysBefore m + 1 }

/-- The days from 1970-01-01 to a date. -/
def Date.toDays (d : Date) : Int :=
  let year := if d.month ≤ 2 then d.year - 1 else d.year
  let m := if d.month ≤ 2 then d.month + 9 else d.month - 3
  let ofCycle := year % 400
  146097 * (year / 400) + (365 * ofCycle + ofCycle / 4 - ofCycle / 100)
    + (daysBefore m + d.day - 1) - 719468

/-- The instant `t` seconds after the epoch. -/
def DateTime.ofUnix (t : Int) : DateTime where
  date := Date.ofDays (t / 86400)
  hour := t % 86400 / 3600
  minute := t % 3600 / 60
  second := t % 60

/-- The unix seconds of an instant. -/
def DateTime.toUnix (at' : DateTime) : Int :=
  86400 * at'.date.toDays + 3600 * at'.hour + 60 * at'.minute + at'.second

/-! ## A date names its day -/

/-- The parts of a place stay within the whole they are parts of, and add up. -/
theorem Place.of_spec (n : Int) :
    let p := Place.of n
    0 ≤ p.century ∧ p.century ≤ 3 ∧ 0 ≤ p.quadrennium ∧ p.quadrennium ≤ 24
      ∧ 0 ≤ p.year ∧ p.year ≤ 3 ∧ 0 ≤ p.day ∧ p.day ≤ 365
      ∧ 146097 * p.cycle + 36524 * p.century + 1461 * p.quadrennium + 365 * p.year + p.day
        = n + 719468 := by
  simp only [Place.of]
  omega

theorem monthOf_bounds {day : Int} (h : 0 ≤ day) (h' : day ≤ 365) :
    0 ≤ monthOf day ∧ monthOf day ≤ 11 := by
  rw [monthOf]
  omega

/-- **A DAY IS THE DAY OF ITS DATE.** -/
theorem Date.toDays_ofDays (n : Int) : (Date.ofDays n).toDays = n := by
  obtain ⟨hc, hc', hq, hq', hy, hy', hd, hd', hsum⟩ := Place.of_spec n
  obtain ⟨hm, hm'⟩ := monthOf_bounds hd hd'
  simp only [Date.ofDays]
  generalize Place.of n = p at *
  generalize monthOf p.day = m at *
  have hmarch : ∀ y : Int, (Date.toDays {
      year := if m < 10 then y else y + 1
      month := if m < 10 then m + 3 else m - 9
      day := p.day - daysBefore m + 1 })
      = 146097 * (y / 400) + (365 * (y % 400) + y % 400 / 4 - y % 400 / 100) + p.day
        - 719468 := by
    intro y
    simp only [Date.toDays]
    by_cases hlate : m < 10
    · simp only [if_pos hlate, if_neg (show ¬ m + 3 ≤ 2 by omega), Int.add_sub_cancel]
      omega
    · simp only [if_neg hlate, if_pos (show m - 9 ≤ 2 by omega), Int.sub_add_cancel,
        Int.add_sub_cancel]
      omega
  rw [hmarch]
  omega

example : Date.ofDays 11016 = ⟨2000, 2, 29⟩ ∧ Date.ofDays (-25508) = ⟨1900, 3, 1⟩ := by
  decide

theorem Date.ofDays_bounds (n : Int) :
    let d := Date.ofDays n
    1 ≤ d.month ∧ d.month ≤ 12 ∧ 1 ≤ d.day ∧ d.day ≤ 31 := by
  obtain ⟨-, -, -, -, -, -, hd, hd', -⟩ := Place.of_spec n
  obtain ⟨hm, hm'⟩ := monthOf_bounds hd hd'
  have hday : 1 ≤ (Place.of n).day - daysBefore (monthOf (Place.of n).day) + 1
      ∧ (Place.of n).day - daysBefore (monthOf (Place.of n).day) + 1 ≤ 31 := by
    rw [monthOf, daysBefore]
    omega
  simp only [Date.ofDays]
  omega

/-- **AN INSTANT IS THE INSTANT OF ITS DATE AND TIME.** -/
theorem DateTime.toUnix_ofUnix (t : Int) : (DateTime.ofUnix t).toUnix = t := by
  simp only [DateTime.ofUnix, DateTime.toUnix, Date.toDays_ofDays]
  omega

/-! ## Months and years -/

/-- Months are counted from January of the year zero. -/
def Date.monthIndex (d : Date) : Int := 12 * d.year + (d.month - 1)

/-- The first day of a month. -/
def monthStart (i : Int) : Int := Date.toDays ⟨i / 12, i % 12 + 1, 1⟩

theorem monthStart_lt_succ (i : Int) : monthStart i < monthStart (i + 1) := by
  simp only [monthStart, Date.toDays, daysBefore]
  omega

/-- The first of March of a year. -/
def marchStart (y : Int) : Int :=
  146097 * (y / 400) + (365 * (y % 400) + y % 400 / 4 - y % 400 / 100) - 719468

/-- The year a place falls in, counted from March. -/
def Place.marchYear (p : Place) : Int :=
  400 * p.cycle + 100 * p.century + 4 * p.quadrennium + p.year

/-- A month starts where the months since March put it. -/
theorem monthStart_march (y : Int) {m : Int} (h : 0 ≤ m) (h' : m ≤ 11) :
    monthStart (12 * y + m + 2) = marchStart y + daysBefore m := by
  have hyear : (12 * y + m + 2) / 12 = if m < 10 then y else y + 1 := by
    split <;> omega
  have hmonth : (12 * y + m + 2) % 12 + 1 = if m < 10 then m + 3 else m - 9 := by
    split <;> omega
  simp only [monthStart, Date.toDays, marchStart, hyear, hmonth]
  by_cases hlate : m < 10
  · simp only [if_pos hlate, if_neg (show ¬ m + 3 ≤ 2 by omega), Int.add_sub_cancel]
    omega
  · simp only [if_neg hlate, if_pos (show m - 9 ≤ 2 by omega), Int.sub_add_cancel,
      Int.add_sub_cancel]
    omega

/-- Only a leap year has a three hundred and sixty-sixth day. -/
theorem Place.leap (n : Int) (h : 365 ≤ (Place.of n).day) :
    (Place.of n).year = 3 ∧ ((Place.of n).quadrennium ≤ 23 ∨ (Place.of n).century = 3) := by
  simp only [Place.of] at h ⊢
  omega

/-- A day falls in its year: after the first of March and before the next. -/
theorem Place.mem_year (n : Int) :
    marchStart (Place.of n).marchYear + (Place.of n).day = n
      ∧ n < marchStart ((Place.of n).marchYear + 1) := by
  obtain ⟨hc, hc', hq, hq', hy, hy', hd, hd', hsum⟩ := Place.of_spec n
  have hleap := Place.leap n
  simp only [Place.marchYear, marchStart]
  generalize Place.of n = p at *
  have hcycle : (400 * p.cycle + 100 * p.century + 4 * p.quadrennium + p.year) / 400
      = p.cycle := by omega
  have hyears : (400 * p.cycle + 100 * p.century + 4 * p.quadrennium + p.year) % 400
      = 100 * p.century + 4 * p.quadrennium + p.year := by omega
  have hfour : (100 * p.century + 4 * p.quadrennium + p.year) / 4
      = 25 * p.century + p.quadrennium := by omega
  have hhundred : (100 * p.century + 4 * p.quadrennium + p.year) / 100 = p.century := by omega
  rw [hcycle, hyears, hfour, hhundred]
  refine ⟨by omega, ?_⟩
  by_cases hlast : 100 * p.century + 4 * p.quadrennium + p.year = 399
  · rw [show 400 * p.cycle + 100 * p.century + 4 * p.quadrennium + p.year + 1
      = 400 * (p.cycle + 1) by omega, Int.mul_ediv_cancel_left _ (by omega),
      Int.mul_emod_right]
    omega
  · have hcycle' : (400 * p.cycle + 100 * p.century + 4 * p.quadrennium + p.year + 1) / 400
        = p.cycle := by omega
    have hyears' : (400 * p.cycle + 100 * p.century + 4 * p.quadrennium + p.year + 1) % 400
        = 100 * p.century + 4 * p.quadrennium + p.year + 1 := by omega
    rw [hcycle', hyears']
    omega

theorem monthIndex_ofDays (n : Int) :
    (Date.ofDays n).monthIndex
      = 12 * (Place.of n).marchYear + monthOf (Place.of n).day + 2 := by
  simp only [Date.monthIndex, Date.ofDays, Place.marchYear]
  split <;> omega

/-- A day falls in its month. -/
theorem mem_month (n : Int) :
    monthStart (Date.ofDays n).monthIndex ≤ n
      ∧ n < monthStart ((Date.ofDays n).monthIndex + 1) := by
  obtain ⟨-, -, -, -, -, -, hd, hd', -⟩ := Place.of_spec n
  obtain ⟨hm, hm'⟩ := monthOf_bounds hd hd'
  obtain ⟨hsum, hnext⟩ := Place.mem_year n
  have hday : daysBefore (monthOf (Place.of n).day) ≤ (Place.of n).day
      ∧ (Place.of n).day < daysBefore (monthOf (Place.of n).day + 1) := by
    rw [monthOf, daysBefore, daysBefore]
    omega
  rw [monthIndex_ofDays, monthStart_march _ hm hm']
  refine ⟨by omega, ?_⟩
  by_cases hlast : monthOf (Place.of n).day ≤ 10
  · have hstart := monthStart_march (Place.of n).marchYear
      (show 0 ≤ monthOf (Place.of n).day + 1 by omega) (by omega)
    rw [show 12 * (Place.of n).marchYear + monthOf (Place.of n).day + 2 + 1
      = 12 * (Place.of n).marchYear + (monthOf (Place.of n).day + 1) + 2 by omega, hstart]
    omega
  · have hstart := monthStart_march ((Place.of n).marchYear + 1) (le_refl 0) (by omega)
    rw [show 12 * (Place.of n).marchYear + monthOf (Place.of n).day + 2 + 1
      = 12 * ((Place.of n).marchYear + 1) + 0 + 2 by omega, hstart]
    have hzero : daysBefore 0 = 0 := by decide
    omega
theorem Date.monthIndex_div (n : Int) :
    (Date.ofDays n).monthIndex / 12 = (Date.ofDays n).year := by
  obtain ⟨hm, hm', -, -⟩ := Date.ofDays_bounds n
  rw [Date.monthIndex]
  omega

/-- The first of January. -/
def yearStart (y : Int) : Int := monthStart (12 * y)

theorem yearStart_length (y : Int) : yearStart (y + 1) ≤ yearStart y + 366 := by
  simp only [yearStart, monthStart, Date.toDays, daysBefore]
  omega

/-! ## Scales

    Days, weeks, months and years as cells of the line of days, and then of the
    line of seconds. -/

/-- Every day is a cell. -/
def dayScale : Scale where
  start i := i
  index n := n
  start_lt i := by omega
  start_index n := le_refl n
  lt_start n := by omega

/-- Weeks open on Monday, and 1970-01-01 was a Thursday. -/
def weekScale : Scale where
  start i := 7 * i - 3
  index n := (n + 3) / 7
  start_lt i := by omega
  start_index n := by omega
  lt_start n := by omega

def monthScale : Scale where
  start := monthStart
  index n := (Date.ofDays n).monthIndex
  start_lt := monthStart_lt_succ
  start_index n := (mem_month n).1
  lt_start n := (mem_month n).2

def yearScale : Scale where
  start := yearStart
  index n := (Date.ofDays n).year
  start_lt y := monthScale.start_strictMono (show 12 * y < 12 * (y + 1) by omega)
  start_index n := by
    have hle : 12 * (Date.ofDays n).year ≤ (Date.ofDays n).monthIndex := by
      have := Date.monthIndex_div n
      omega
    exact le_trans (monthScale.start_strictMono.monotone hle) (mem_month n).1
  lt_start n := by
    have hle : (Date.ofDays n).monthIndex + 1 ≤ 12 * ((Date.ofDays n).year + 1) := by
      have := Date.monthIndex_div n
      omega
    exact lt_of_lt_of_le (mem_month n).2 (monthScale.start_strictMono.monotone hle)

/-- A scale of days, in seconds. -/
def inSeconds (S : Scale) : Scale where
  start i := 86400 * S.start i
  index t := S.index (t / 86400)
  start_lt i := by
    have := S.start_lt i
    omega
  start_index t := by
    have := S.start_index (t / 86400)
    omega
  lt_start t := by
    have := S.lt_start (t / 86400)
    omega

/-! ## ISO weeks -/

/-- The year a week belongs to: the one its Thursday falls in. -/
def isoYear (week : Int) : Int := (Date.ofDays (7 * week)).year

/-- The number of a week in its year. -/
def isoWeek (week : Int) : Int := (7 * week - yearStart (isoYear week)) / 7 + 1

theorem isoWeek_bounds (week : Int) : 1 ≤ isoWeek week ∧ isoWeek week ≤ 53 := by
  have hlo := yearScale.start_index (7 * week)
  have hhi := yearScale.lt_start (7 * week)
  have hlen := yearStart_length (isoYear week)
  change yearStart (isoYear week) ≤ 7 * week at hlo
  change 7 * week < yearStart (isoYear week + 1) at hhi
  rw [isoWeek]
  omega

/-- **A WEEK IS KNOWN BY ITS YEAR AND NUMBER.** -/
theorem isoWeek_injective {week week' : Int} (hyear : isoYear week = isoYear week')
    (hweek : isoWeek week = isoWeek week') : week = week' := by
  have hlo := yearScale.start_index (7 * week)
  have hlo' := yearScale.start_index (7 * week')
  change yearStart (isoYear week) ≤ 7 * week at hlo
  change yearStart (isoYear week') ≤ 7 * week' at hlo'
  rw [isoWeek, isoWeek, hyear] at hweek
  rw [hyear] at hlo
  omega

end Calendar
