import Bestiario.Lib.Timestamp

/-! # Windows and their buckets

    `crates/stats/src/window.rs`: a half-open interval of unix seconds, and the
    walk that cuts one into calendar days, ISO weeks, months or years.  The walk
    opens at the bucket that holds the window's first second, steps a cursor
    from bucket to bucket, and clips each to the window.

    Over the years an address can spell the walk is a scale read off the
    calendar (`bucketsUpto_eq`): the cells the window meets, clipped, in order.
    Everything about buckets follows from that. -/

namespace Stats

open Calendar Tiling Timestamp

/-- A half-open interval of unix seconds: `from ≤ t < until`. -/
structure Window where
  from' : Int
  until' : Int
  deriving DecidableEq, Repr

namespace Window

def contains (w : Window) (timestamp : Int) : Bool :=
  decide (timestamp ≥ w.from') && decide (timestamp < w.until')

/-- The window of the same length ending where this one starts. -/
def previous (w : Window) : Window := ⟨w.from' - (w.until' - w.from'), w.from'⟩

/-- The window as an interval. -/
def interval (w : Window) : Interval := (w.from', w.until')

end Window

/-- The size of a series bucket. -/
inductive Period where
  | day
  | week
  | month
  | year
  deriving DecidableEq, Repr

/-! ## The calendar the walk runs on -/

/-- The years a date can have. -/
def Representable (t : Int) : Prop :=
  -262143 ≤ (DateTime.ofUnix t).date.year ∧ (DateTime.ofUnix t).date.year ≤ 262142

instance (t : Int) : Decidable (Representable t) := inferInstanceAs (Decidable (_ ∧ _))

/-- `DateTime::from_timestamp`: `None` outside the years a date can have. -/
def fromTimestamp (t : Int) : Option DateTime :=
  if Representable t then some (DateTime.ofUnix t) else none

/-- `with_ymd_and_hms` at midnight: the instant, if there is such a date. -/
def withYmd (year month day : Int) : Option Int :=
  let date : Date := ⟨year, month, day⟩
  if -262143 ≤ year ∧ year ≤ 262142 ∧ Date.ofDays date.toDays = date then
    some (86400 * date.toDays)
  else none

/-- `checked_add_days`. -/
def addDays (t days : Int) : Option Int :=
  if Representable (t + 86400 * days) then some (t + 86400 * days) else none

/-- `next_month`: the first of the month after. -/
def nextMonth (t : Int) : Option Int :=
  let date := (DateTime.ofUnix t).date
  if date.month = 12 then withYmd (date.year + 1) 1 1 else withYmd date.year (date.month + 1) 1

namespace Period

/-- The bucket after the one that opens at `t`. -/
def next : Period → Int → Option Int
  | .day, t => addDays t 1
  | .week, t => addDays t 7
  | .month, t => nextMonth t
  | .year, t => withYmd ((DateTime.ofUnix t).date.year + 1) 1 1

/-- `%Y-%m-%d`, `%G-W%V`, `%Y-%m` or `%Y` of an instant. -/
def key : Period → Int → String
  | .day, t => String.ofList (dateText (DateTime.ofUnix t).date)
  | .week, t =>
      let week := (t / 86400 + 3) / 7
      String.ofList
        (yearText (isoYear week) ++ '-' :: 'W' :: pad 2 (isoWeek week).toNat)
  | .month, t =>
      let date := (DateTime.ofUnix t).date
      String.ofList (yearText date.year ++ '-' :: pad 2 date.month.toNat)
  | .year, t => String.ofList (yearText (DateTime.ofUnix t).date.year)

end Period

namespace Window

/-- The instant the bucket holding the window's first second opens. -/
def opening (w : Window) (period : Period) : Option Int := do
  let start ← fromTimestamp w.from'
  match period with
  | .day => some (86400 * (w.from' / 86400))
  | .week =>
      -- The weekday is counted from Monday.
      let monday := w.from' / 86400 - (w.from' / 86400 + 3) % 7
      if Representable (86400 * monday) then some (86400 * monday) else none
  | .month => withYmd start.date.year start.date.month 1
  | .year => withYmd start.date.year 1 1

/-- One bucket after another, each clipped to the window; `None` once there are
    more than `limit`.  The end of the calendar ends the walk. -/
def walk (w : Window) (period : Period) (limit : Nat) :
    Nat → Int → List (String × Window) → Option (List (String × Window))
  | 0, _, buckets => some buckets
  | fuel + 1, cursor, buckets =>
      if cursor < w.until' then
        match period.next cursor with
        | none => some buckets
        | some following =>
            let clipped : Window := ⟨max cursor w.from', min following w.until'⟩
            if clipped.from' < clipped.until' then
              if buckets.length = limit then none
              else walk w period limit fuel following (buckets ++ [(period.key cursor, clipped)])
            else walk w period limit fuel following buckets
      else some buckets

/-- The buckets of `period` this window touches, refusing more than `limit`. -/
def bucketsUpto (w : Window) (period : Period) (limit : Nat) :
    Option (List (String × Window)) :=
  match w.opening period with
  | none => some []
  | some cursor => w.walk period limit (w.until' - cursor).toNat cursor []

/-- The largest `usize`. -/
def usizeMax : Nat := 2 ^ 64 - 1

/-- The buckets of `period` this window touches. -/
def buckets (w : Window) (period : Period) : List (String × Window) :=
  (w.bucketsUpto period usizeMax).getD []

end Window

/-! ## Scales of the four periods -/

/-- The cells of each period, on the line of seconds. -/
def Period.scale : Period → Scale
  | .day => inSeconds dayScale
  | .week => inSeconds weekScale
  | .month => inSeconds monthScale
  | .year => inSeconds yearScale

theorem year_of_unix (t : Int) :
    (DateTime.ofUnix t).date.year = (Period.scale .year).index t := rfl

/-- The seconds a date of the years 1 to 9998 can have, and a year around them. -/
def Spelled (t : Int) : Prop := -62200000000 ≤ t ∧ t < 253450000000

theorem representable_of_spelled {t : Int} (h : Spelled t) : Representable t := by
  have hlo : -262143 ≤ (Period.scale .year).index t :=
    Scale.start_le_iff.mp (le_trans (show (Period.scale .year).start (-262143) ≤ -62200000000
      by decide) h.1)
  have hhi : (Period.scale .year).index t < 262143 := by
    refine not_le.mp fun hle => ?_
    have hstart : (Period.scale .year).start 262143 ≤ t := Scale.start_le_iff.mpr hle
    have hnum : (253450000000 : Int) ≤ (Period.scale .year).start 262143 := by decide
    exact absurd h.2 (not_lt.mpr (le_trans hnum hstart))
  exact ⟨hlo, by rw [year_of_unix]; omega⟩

/-- The date a month opens on. -/
theorem ofDays_monthStart (i : Int) : Date.ofDays (monthStart i) = ⟨i / 12, i % 12 + 1, 1⟩ := by
  have hindex : (Date.ofDays (monthStart i)).monthIndex = i := monthScale.index_start i
  have hyear := Date.monthIndex_div (monthStart i)
  have hdays := Date.toDays_ofDays (monthStart i)
  generalize hd : Date.ofDays (monthStart i) = d at hindex hyear hdays
  obtain ⟨year, month, day⟩ := d
  have hy : year = i / 12 := by
    rw [hindex] at hyear
    exact hyear.symm
  have hm : month = i % 12 + 1 := by
    simp only [Date.monthIndex] at hindex
    omega
  subst hy
  subst hm
  have hday : day = 1 := by
    simp only [monthStart, Date.toDays] at hdays
    omega
  rw [hday]

theorem withYmd_monthStart {i : Int} (h : -262143 ≤ i / 12) (h' : i / 12 ≤ 262142) :
    withYmd (i / 12) (i % 12 + 1) 1 = some (86400 * monthStart i) := by
  have hvalid : Date.ofDays (Date.toDays ⟨i / 12, i % 12 + 1, 1⟩) = ⟨i / 12, i % 12 + 1, 1⟩ :=
    ofDays_monthStart i
  rw [withYmd, if_pos ⟨h, h', hvalid⟩]
  rfl

theorem withYmd_yearStart {y : Int} (h : -262143 ≤ y) (h' : y ≤ 262142) :
    withYmd y 1 1 = some (86400 * yearStart y) := by
  have hy : 12 * y / 12 = y := by omega
  have hm : 12 * y % 12 + 1 = 1 := by omega
  have hall := withYmd_monthStart (i := 12 * y) (by omega) (by omega)
  rw [hy, hm] at hall
  exact hall

/-- No bucket is longer than a leap year. -/
theorem Period.scale_length (period : Period) (i : Int) :
    period.scale.start (i + 1) ≤ period.scale.start i + 31622400 := by
  cases period with
  | day =>
      show 86400 * (i + 1) ≤ 86400 * i + 31622400
      omega
  | week =>
      show 86400 * (7 * (i + 1) - 3) ≤ 86400 * (7 * i - 3) + 31622400
      omega
  | month =>
      -- A month lies in a year.
      have hmono := monthScale.start_strictMono.monotone
      have hlo : yearStart (i / 12) ≤ monthStart i := hmono (show 12 * (i / 12) ≤ i by omega)
      have hhi : monthStart (i + 1) ≤ yearStart (i / 12 + 1) :=
        hmono (show i + 1 ≤ 12 * (i / 12 + 1) by omega)
      have hyear := yearStart_length (i / 12)
      show 86400 * monthStart (i + 1) ≤ 86400 * monthStart i + 31622400
      omega
  | year =>
      have hyear := yearStart_length i
      show 86400 * yearStart (i + 1) ≤ 86400 * yearStart i + 31622400
      omega

/-- The walk's step is the scale's. -/
theorem Period.next_start {period : Period} {i : Int}
    (h : Spelled (period.scale.start (i + 1))) :
    period.next (period.scale.start i) = some (period.scale.start (i + 1)) := by
  have hrep := representable_of_spelled h
  cases period with
  | day =>
      have hstep : 86400 * i + 86400 * 1 = 86400 * (i + 1) := by omega
      show addDays (86400 * i) 1 = some (86400 * (i + 1))
      rw [addDays, hstep]
      exact if_pos hrep
  | week =>
      have hstep : 86400 * (7 * i - 3) + 86400 * 7 = 86400 * (7 * (i + 1) - 3) := by omega
      show addDays (86400 * (7 * i - 3)) 7 = some (86400 * (7 * (i + 1) - 3))
      rw [addDays, hstep]
      exact if_pos hrep
  | month =>
      have hdate : (DateTime.ofUnix (86400 * monthStart i)).date = ⟨i / 12, i % 12 + 1, 1⟩ := by
        rw [DateTime.ofUnix, Int.mul_ediv_cancel_left _ (by omega), ofDays_monthStart]
      have hyear : (DateTime.ofUnix (86400 * monthStart (i + 1))).date.year = (i + 1) / 12 := by
        rw [DateTime.ofUnix, Int.mul_ediv_cancel_left _ (by omega), ofDays_monthStart]
      have hnext := withYmd_monthStart (i := i + 1) (hyear ▸ hrep.1) (hyear ▸ hrep.2)
      show nextMonth (86400 * monthStart i) = some (86400 * monthStart (i + 1))
      rw [nextMonth, hdate, ← hnext]
      by_cases hdec : i % 12 + 1 = 12
      · rw [if_pos hdec, show (i + 1) / 12 = i / 12 + 1 by omega,
          show (i + 1) % 12 + 1 = 1 by omega]
      · rw [if_neg hdec, show (i + 1) / 12 = i / 12 by omega,
          show (i + 1) % 12 + 1 = i % 12 + 1 + 1 by omega]
  | year =>
      have hdate : (DateTime.ofUnix (86400 * yearStart i)).date.year = i :=
        (Period.scale .year).index_start i
      have hyear : (DateTime.ofUnix (86400 * yearStart (i + 1))).date.year = i + 1 :=
        (Period.scale .year).index_start (i + 1)
      show withYmd ((DateTime.ofUnix (86400 * yearStart i)).date.year + 1) 1 1
        = some (86400 * yearStart (i + 1))
      rw [hdate]
      exact withYmd_yearStart (hyear ▸ hrep.1) (hyear ▸ hrep.2)

/-- The walk opens where the scale puts the window's first second. -/
theorem Window.opening_eq {w : Window} (period : Period) (h : Spelled w.from')
    (hopen : Spelled (period.scale.start (period.scale.index w.from'))) :
    w.opening period = some (period.scale.start (period.scale.index w.from')) := by
  have hrep := representable_of_spelled h
  rw [Window.opening, fromTimestamp, if_pos hrep]
  cases period with
  | day => rfl
  | week =>
      have hmonday : 86400 * (w.from' / 86400 - (w.from' / 86400 + 3) % 7)
          = 86400 * (7 * ((w.from' / 86400 + 3) / 7) - 3) := by omega
      show (if Representable (86400 * (w.from' / 86400 - (w.from' / 86400 + 3) % 7)) then
        some (86400 * (w.from' / 86400 - (w.from' / 86400 + 3) % 7)) else none) = _
      rw [hmonday]
      exact if_pos (representable_of_spelled hopen)
  | month =>
      have hyear := Date.monthIndex_div (w.from' / 86400)
      obtain ⟨hm, hm', -, -⟩ := Date.ofDays_bounds (w.from' / 86400)
      have hmonth : (Date.ofDays (w.from' / 86400)).monthIndex % 12 + 1
          = (Date.ofDays (w.from' / 86400)).month := by
        rw [Date.monthIndex]
        omega
      have hall := withYmd_monthStart (i := (Date.ofDays (w.from' / 86400)).monthIndex)
        (hyear ▸ hrep.1) (hyear ▸ hrep.2)
      rw [hyear, hmonth] at hall
      exact hall
  | year => exact withYmd_yearStart hrep.1 hrep.2

/-! ## The walk is the scale -/

namespace Window

/-- Both bounds lie in the years 1 to 9998. -/
def Dated (w : Window) : Prop :=
  (1 ≤ (DateTime.ofUnix w.from').date.year ∧ (DateTime.ofUnix w.from').date.year ≤ 9998)
    ∧ (1 ≤ (DateTime.ofUnix w.until').date.year ∧ (DateTime.ofUnix w.until').date.year ≤ 9998)

instance (w : Window) : Decidable w.Dated := inferInstanceAs (Decidable (_ ∧ _))

/-- An instant of the years 1 to 9998, in seconds. -/
theorem seconds_of_year {t : Int} (h : 1 ≤ (DateTime.ofUnix t).date.year)
    (h' : (DateTime.ofUnix t).date.year ≤ 9998) : -62135596800 ≤ t ∧ t < 253370764800 := by
  rw [year_of_unix] at h h'
  have hlo : (Period.scale .year).start 1 = -62135596800 := by decide
  have hhi : (Period.scale .year).start 9999 = 253370764800 := by decide
  refine ⟨hlo ▸ Scale.start_le_iff.mpr h, hhi ▸ not_le.mp fun hle => ?_⟩
  have := Scale.start_le_iff.mp hle
  omega

/-- One row for each cell the window meets, clipped to it. -/
def rows (w : Window) (period : Period) : List (String × Window) :=
  (period.scale.cells w.from' w.until').map fun i =>
    (period.key (period.scale.start i),
      ⟨(period.scale.cell w.from' w.until' i).1, (period.scale.cell w.from' w.until' i).2⟩)

theorem length_rows (w : Window) (period : Period) :
    (w.rows period).length
      = (period.scale.index (w.until' - 1) + 1 - period.scale.index w.from').toNat := by
  rw [rows, List.length_map, Scale.cells, ints, List.length_map, List.length_range]

/-- From any of its cells on, the walk adds the rows of the cells still to come,
    unless they are too many. -/
theorem walk_eq {w : Window} {period : Period} {limit : Nat} (hlt : w.from' < w.until')
    (hspelled : ∀ i, period.scale.index w.from' ≤ i → i ≤ period.scale.index (w.until' - 1) →
      Spelled (period.scale.start (i + 1)))
    {fuel : Nat} {i : Int} (hi : period.scale.index w.from' ≤ i)
    (hfuel : (period.scale.index (w.until' - 1) + 1 - i).toNat ≤ fuel)
    (hend : i ≤ period.scale.index (w.until' - 1) + 1)
    (done : List (String × Window)) (hdone : done.length ≤ limit) :
    w.walk period limit fuel (period.scale.start i) done
      = if done.length + (period.scale.index (w.until' - 1) + 1 - i).toNat ≤ limit then
          some (done ++ (ints i (period.scale.index (w.until' - 1))).map fun i =>
            (period.key (period.scale.start i),
              ⟨(period.scale.cell w.from' w.until' i).1,
                (period.scale.cell w.from' w.until' i).2⟩))
        else none := by
  induction hn : (period.scale.index (w.until' - 1) + 1 - i).toNat generalizing fuel i done with
  | zero =>
      have hpast : ¬ period.scale.start i < w.until' := by
        rw [show i = period.scale.index (w.until' - 1) + 1 by omega]
        have := period.scale.lt_start (w.until' - 1)
        omega
      rw [if_pos (by omega), ints_of_lt (by omega), List.map_nil, List.append_nil]
      cases fuel with
      | zero => rfl
      | succ fuel => rw [walk, if_neg hpast]
  | succ n ih =>
      have hin : i ≤ period.scale.index (w.until' - 1) := by omega
      have hopen : period.scale.start i < w.until' := by
        have : period.scale.start i ≤ w.until' - 1 := Scale.start_le_iff.mpr hin
        omega
      have hcell := (Scale.cell_spec hlt hi hin).1
      obtain ⟨fuel, rfl⟩ : ∃ k, fuel = k + 1 := ⟨fuel - 1, by omega⟩
      rw [walk, if_pos hopen, Period.next_start (hspelled i hi hin)]
      show (if (period.scale.cell w.from' w.until' i).1
        < (period.scale.cell w.from' w.until' i).2 then _ else _) = _
      rw [if_pos hcell]
      by_cases hfull : done.length = limit
      · rw [if_pos hfull, if_neg (by omega)]
      · rw [if_neg hfull, ih (by omega) (by omega) (by omega) _ (by simp; omega) (by omega),
          ints_cons hin, List.map_cons, List.length_append, List.length_singleton]
        have hiff : (done.length + 1 + n ≤ limit) = (done.length + (n + 1) ≤ limit) :=
          propext (by omega)
        rw [if_congr (Eq.to_iff hiff) rfl rfl, List.append_assoc]
        rfl

theorem Dated.seconds {w : Window} (h : w.Dated) :
    -62135596800 ≤ w.from' ∧ w.from' < 253370764800
      ∧ -62135596800 ≤ w.until' ∧ w.until' < 253370764800 :=
  ⟨(seconds_of_year h.1.1 h.1.2).1, (seconds_of_year h.1.1 h.1.2).2,
    (seconds_of_year h.2.1 h.2.2).1, (seconds_of_year h.2.1 h.2.2).2⟩

/-- From the first second of the year 1 to the last of the year 9999. -/
def Bounded (w : Window) : Prop := -62135596800 ≤ w.from' ∧ w.until' ≤ 253402300800

theorem Dated.bounded {w : Window} (h : w.Dated) : w.Bounded := by
  obtain ⟨hfrom, -, -, huntil⟩ := h.seconds
  exact ⟨hfrom, by omega⟩

/-- From the first second of the year 0 to a week after the last of the year 9999. -/
def Written (w : Window) : Prop := -62167219200 ≤ w.from' ∧ w.until' ≤ 253402905600

theorem Bounded.written {w : Window} (h : w.Bounded) : w.Written := by
  obtain ⟨hlo, hhi⟩ := h
  exact ⟨by omega, by omega⟩

/-- The cells of such a window open within a year of its bounds. -/
theorem Written.spelled {w : Window} (h : w.Written) {period : Period} {i : Int}
    (hi : period.scale.index w.from' ≤ i) (hi' : i ≤ period.scale.index (w.until' - 1)) :
    Spelled (period.scale.start i) ∧ Spelled (period.scale.start (i + 1)) := by
  obtain ⟨hfrom, huntil⟩ := h
  have hopen : period.scale.start i ≤ w.until' - 1 := Scale.start_le_iff.mpr hi'
  have hfirst : w.from' < period.scale.start (i + 1) :=
    lt_of_lt_of_le (period.scale.lt_start w.from')
      (period.scale.start_strictMono.monotone (by omega))
  have hlen := period.scale_length i
  simp only [Spelled]
  omega

theorem Written.bucketsUpto {w : Window} (h : w.Written) (hlt : w.from' < w.until')
    (period : Period) (limit : Nat) :
    w.bucketsUpto period limit
      = if (w.rows period).length ≤ limit then some (w.rows period) else none := by
  have hmono : period.scale.index w.from' ≤ period.scale.index (w.until' - 1) :=
    Scale.index_mono (by omega)
  have hfrom : Spelled w.from' := by
    obtain ⟨hlo, hhi⟩ := h
    simp only [Spelled]
    omega
  have hfuel : (period.scale.index (w.until' - 1) + 1 - period.scale.index w.from').toNat
      ≤ (w.until' - period.scale.start (period.scale.index w.from')).toNat := by
    have hsteps := period.scale.start_add hmono
    have hlast := period.scale.start_index (w.until' - 1)
    omega
  have hwalk : w.walk period limit
      (w.until' - period.scale.start (period.scale.index w.from')).toNat
      (period.scale.start (period.scale.index w.from')) [] = _ :=
    walk_eq hlt (fun i hi hi' => (h.spelled hi hi').2) (le_refl _) hfuel (by omega) []
      (Nat.zero_le _)
  rw [List.length_nil, Nat.zero_add, List.nil_append, ← length_rows] at hwalk
  have hopen := opening_eq period hfrom (h.spelled (le_refl _) hmono).1
  unfold Window.bucketsUpto
  simp only [hopen]
  refine hwalk.trans ?_
  simp only [rows, Scale.cells]

/-- The buckets are the rows: a window of these years has no more than a machine
    can count. -/
theorem Written.buckets {w : Window} (h : w.Written) (hlt : w.from' < w.until')
    (period : Period) : w.buckets period = w.rows period := by
  have hsteps := period.scale.start_add
    (Scale.index_mono (S := period.scale) (show w.from' ≤ w.until' - 1 by omega))
  have hlast := period.scale.start_index (w.until' - 1)
  have hfirst := period.scale.lt_start w.from'
  have hlen := period.scale_length (period.scale.index w.from')
  obtain ⟨hlo, hhi⟩ := h
  have hfew : (w.rows period).length ≤ usizeMax := by
    rw [length_rows, usizeMax]
    omega
  rw [Window.buckets, Written.bucketsUpto ⟨hlo, hhi⟩ hlt, if_pos hfew, Option.getD_some]

/-- **THE WALK GIVES THE ROWS OF THE SCALE**, or nothing when they are more than
    the limit. -/
theorem bucketsUpto_eq {w : Window} (h : w.Dated) (hlt : w.from' < w.until')
    (period : Period) (limit : Nat) :
    w.bucketsUpto period limit
      = if (w.rows period).length ≤ limit then some (w.rows period) else none :=
  h.bounded.written.bucketsUpto hlt period limit

theorem buckets_eq {w : Window} (h : w.Dated) (hlt : w.from' < w.until') (period : Period) :
    w.buckets period = w.rows period := h.bounded.written.buckets hlt period

/-! ## What the rows are -/

theorem rows_intervals (w : Window) (period : Period) :
    (w.rows period).map (fun row => row.2.interval)
      = (period.scale.cells w.from' w.until').map (period.scale.cell w.from' w.until') := by
  rw [rows, List.map_map]
  rfl

/-- **THE BUCKETS TILE THE WINDOW.** -/
theorem tiles_rows {w : Window} (hlt : w.from' < w.until') (period : Period) :
    Tiles w.from' ((w.rows period).map fun row => row.2.interval) w.until' := by
  rw [rows_intervals]
  exact Scale.tiles hlt

theorem contains_iff {w : Window} {t : Int} : w.contains t = true ↔ Inside t w.interval := by
  simp [contains, Inside, interval]

end Window

/-! ## Keys -/

/-- An instant's key is the key of its cell. -/
theorem Period.key_of_index {period : Period} {t s : Int}
    (h : period.scale.index t = period.scale.index s) : period.key t = period.key s := by
  cases period with
  | day =>
      have hday : t / 86400 = s / 86400 := h
      simp only [Period.key, DateTime.ofUnix, hday]
  | week =>
      have hweek : (t / 86400 + 3) / 7 = (s / 86400 + 3) / 7 := h
      simp only [Period.key, hweek]
  | month =>
      have hindex : (Date.ofDays (t / 86400)).monthIndex
          = (Date.ofDays (s / 86400)).monthIndex := h
      have hyear := Date.monthIndex_div (t / 86400)
      rw [hindex, Date.monthIndex_div] at hyear
      have hmonth : (Date.ofDays (t / 86400)).month = (Date.ofDays (s / 86400)).month := by
        simp only [Date.monthIndex] at hindex
        omega
      simp only [Period.key, DateTime.ofUnix, hyear, hmonth]
  | year =>
      have hyear : (Date.ofDays (t / 86400)).year = (Date.ofDays (s / 86400)).year := h
      simp only [Period.key, DateTime.ofUnix, hyear]

/-- **A BUCKET IS KEYED BY THE CALENDAR CELL IT LIES IN.** -/
theorem Window.key_of_rows {w : Window} {period : Period} {row : String × Window}
    (hrow : row ∈ w.rows period) {t : Int} (ht : row.2.contains t = true) :
    period.key t = row.1 := by
  rw [Window.rows, List.mem_map] at hrow
  obtain ⟨i, -, rfl⟩ := hrow
  have hindex := Scale.index_of_cell (Window.contains_iff.mp ht)
  exact Period.key_of_index (hindex.trans (period.scale.index_start i).symm)

/-- A cell whose date, and whose Thursday's, has a year of four digits. -/
def Period.Fits (period : Period) (i : Int) : Prop :=
  FourDigit (period.scale.start i) ∧ FourDigit (period.scale.start i + 259200)

/-- Cells of four-digit years are told apart by their keys. -/
theorem Period.key_injective {period : Period} {i j : Int} (hi : period.Fits i)
    (hj : period.Fits j)
    (h : period.key (period.scale.start i) = period.key (period.scale.start j)) : i = j := by
  have hi' := ofUnix_bounds (period.scale.start i)
  have hj' := ofUnix_bounds (period.scale.start j)
  cases period with
  | day =>
      simp only [Period.key, String.ofList_inj, dateText] at h
      obtain ⟨hyear, hrest⟩ := yearText_append_inj hi.1 hj.1 h
      obtain ⟨hmonth, hrest⟩ := pad_append_inj (by omega) (by omega)
        (List.cons_eq_cons.mp hrest).2
      have hday := pad_inj (List.cons_eq_cons.mp hrest).2 (by omega) (by omega)
      have hdate : (DateTime.ofUnix ((Period.scale .day).start i)).date
          = (DateTime.ofUnix ((Period.scale .day).start j)).date := by
        refine Date.ext hyear ?_ ?_
        · omega
        · omega
      have hdays := congrArg Date.toDays hdate
      simp only [DateTime.ofUnix, Date.toDays_ofDays] at hdays
      change 86400 * i / 86400 = 86400 * j / 86400 at hdays
      omega
  | week =>
      -- The year in front is the ISO one: that of the week's Thursday, three days in.
      have hweek : ∀ k : Int, (86400 * (7 * k - 3) / 86400 + 3) / 7 = k := by
        intro k
        omega
      have hyear : ∀ k : Int,
          (DateTime.ofUnix ((Period.scale .week).start k + 259200)).date.year = isoYear k := by
        intro k
        show (Date.ofDays ((86400 * (7 * k - 3) + 259200) / 86400)).year = isoYear k
        rw [isoYear, show (86400 * (7 * k - 3) + 259200) / 86400 = 7 * k by omega]
      have hkey : ∀ k : Int, Period.key .week ((Period.scale .week).start k)
          = String.ofList (yearText (isoYear k) ++ '-' :: 'W' :: pad 2 (isoWeek k).toNat) := by
        intro k
        show String.ofList (yearText (isoYear ((86400 * (7 * k - 3) / 86400 + 3) / 7)) ++ '-' ::
          'W' :: pad 2 (isoWeek ((86400 * (7 * k - 3) / 86400 + 3) / 7)).toNat) = _
        rw [hweek]
      have hbi := isoWeek_bounds i
      have hbj := isoWeek_bounds j
      rw [hkey, hkey, String.ofList_inj] at h
      obtain ⟨hsame, hrest⟩ := yearText_append_inj (hyear i ▸ hi.2) (hyear j ▸ hj.2) h
      have hnum := pad_inj (List.cons_eq_cons.mp (List.cons_eq_cons.mp hrest).2).2
        (by omega) (by omega)
      exact isoWeek_injective hsame (by omega)
  | month =>
      have hdate : ∀ k : Int, (DateTime.ofUnix ((Period.scale .month).start k)).date
          = ⟨k / 12, k % 12 + 1, 1⟩ := by
        intro k
        show Date.ofDays (86400 * monthStart k / 86400) = _
        rw [Int.mul_ediv_cancel_left _ (by omega), ofDays_monthStart]
      simp only [Period.key, String.ofList_inj] at h
      obtain ⟨hyear, hrest⟩ := yearText_append_inj hi.1 hj.1 h
      have hmonth := pad_inj (List.cons_eq_cons.mp hrest).2 (by omega) (by omega)
      rw [hdate, hdate] at hyear hmonth
      simp only at hyear hmonth
      omega
  | year =>
      simp only [Period.key, String.ofList_inj] at h
      have hyear := yearText_inj h hi.1 hj.1
      have hindex : ∀ k : Int, (DateTime.ofUnix ((Period.scale .year).start k)).date.year = k :=
        (Period.scale .year).index_start
      rw [hindex, hindex] at hyear
      exact hyear

namespace Window

/-- The cells of a dated window have years of four digits. -/
theorem Dated.fits {w : Window} (h : w.Dated) {period : Period} {i : Int}
    (hi : period.scale.index w.from' ≤ i) (hi' : i ≤ period.scale.index (w.until' - 1)) :
    period.Fits i := by
  obtain ⟨hfrom, -, -, huntil⟩ := h.seconds
  have hopen : period.scale.start i ≤ w.until' - 1 := Scale.start_le_iff.mpr hi'
  have hfirst : w.from' < period.scale.start (i + 1) :=
    lt_of_lt_of_le (period.scale.lt_start w.from')
      (period.scale.start_strictMono.monotone (by omega))
  have hlen := period.scale_length i
  have hzero : (Period.scale .year).start 0 = -62167219200 := by decide
  have hmax : (Period.scale .year).start 10000 = 253402300800 := by decide
  have hyear : ∀ t, -62167219200 ≤ t → t < 253402300800 → FourDigit t := by
    intro t hlo hhi
    refine ⟨?_, ?_⟩
    · rw [year_of_unix]
      exact Scale.start_le_iff.mp (hzero ▸ hlo)
    · rw [year_of_unix]
      refine Int.lt_add_one_iff.mp (not_le.mp fun hle => ?_)
      exact absurd hhi (not_lt.mpr (hmax ▸ Scale.start_le_iff.mpr hle))
  exact ⟨hyear _ (by omega) (by omega), hyear _ (by omega) (by omega)⟩

/-- **NO TWO BUCKETS SHARE A KEY.** -/
theorem keys_nodup {w : Window} (h : w.Dated) (period : Period) :
    ((w.rows period).map Prod.fst).Nodup := by
  have hkeys : (w.rows period).map Prod.fst
      = (period.scale.cells w.from' w.until').map fun i =>
        period.key (period.scale.start i) := by
    rw [rows, List.map_map]
    rfl
  rw [hkeys]
  refine List.Nodup.map_on ?_ ((ints_pairwise _ _).imp fun h => ne_of_lt h)
  intro i hi j hj heq
  obtain ⟨hi, hi'⟩ := mem_ints.mp hi
  obtain ⟨hj, hj'⟩ := mem_ints.mp hj
  exact Period.key_injective (h.fits hi hi') (h.fits hj hj') heq

end Window

end Stats
