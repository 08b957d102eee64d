import Bestiario.Rows

/-! # The bucket before

    `Window::preceding` of `crates/stats/src/window.rs` and `walk` of
    `crates/stats/src/bucket.rs`: what a bucket is compared against.  Both bounds of
    a bucket are moved on their own, by days or by calendar months whose last days
    clamp; nothing in the code says that the two land on neighbouring openings.

    They do: a bucket opens at midnight on a first of the month or on a Monday,
    where there is no day to clamp, and one period back from an opening is the
    opening before it (`Period.back_start`). -/

namespace Stats

open Calendar Tiling Timestamp

/-! ## Moving back -/

/-- `checked_sub_days`: the same time of the day, so many days before. -/
def subDays (at' : DateTime) (days : Int) : Option DateTime :=
  fromTimestamp (at'.toUnix - 86400 * days)

/-- How many days a month has. -/
def monthLength (i : Int) : Int := monthStart (i + 1) - monthStart i

/-- `checked_sub_months`: a day the earlier month does not have clamps to its last. -/
def subMonths (at' : DateTime) (months : Int) : Option DateTime :=
  let i := at'.date.monthIndex - months
  if -262143 ≤ i / 12 ∧ i / 12 ≤ 262142 then
    some { at' with date := ⟨i / 12, i % 12 + 1, min at'.date.day (monthLength i)⟩ }
  else none

namespace Window

/-- Both bounds, each moved on its own. -/
def moved (w : Window) (back : Int → Option Int) : Option Window := do
  return ⟨← back w.from', ← back w.until'⟩

/-- `shifted`. -/
def shifted (w : Window) (days : Int) : Option Window :=
  w.moved fun timestamp => do
    let at' ← fromTimestamp timestamp
    (subDays at' days).map DateTime.toUnix

/-- `shifted_months`. -/
def shiftedMonths (w : Window) (months : Int) : Option Window :=
  w.moved fun timestamp => do
    let at' ← fromTimestamp timestamp
    (subMonths at' months).map DateTime.toUnix

/-- `previous_month`. -/
def previousMonth (w : Window) : Option Window := w.shiftedMonths 1

/-- `preceding`: the same span one period earlier. -/
def preceding (w : Window) : Period → Option Window
  | .day => w.shifted 1
  | .week => w.shifted 7
  | .month => w.previousMonth
  | .year => w.shiftedMonths 12

theorem moved_eq {w : Window} {back : Int → Option Int} {lo hi : Int}
    (hlo : back w.from' = some lo) (hhi : back w.until' = some hi) :
    w.moved back = some ⟨lo, hi⟩ := by
  rw [moved, hlo, hhi]
  rfl

end Window

/-- From the 28th of February to the 31st of March, a month back, ends on the 28th. -/
example : (Window.mk 1772236800 1774915200).previousMonth = some ⟨1769558400, 1772236800⟩ := by
  decide

theorem fromTimestamp_of_spelled {t : Int} (h : Spelled t) :
    fromTimestamp t = some (DateTime.ofUnix t) := if_pos (representable_of_spelled h)

/-- A day back from an instant, while there are such dates. -/
theorem subDays_ofUnix {t days : Int} (h : Spelled (t - 86400 * days)) :
    (subDays (DateTime.ofUnix t) days).map DateTime.toUnix = some (t - 86400 * days) := by
  rw [subDays, DateTime.toUnix_ofUnix, fromTimestamp_of_spelled h, Option.map_some,
    DateTime.toUnix_ofUnix]

/-- A month opens on its first, and no month is too short for that. -/
theorem subMonths_monthStart {i months : Int}
    (h : Spelled (86400 * monthStart (i - months))) :
    (subMonths (DateTime.ofUnix (86400 * monthStart i)) months).map DateTime.toUnix
      = some (86400 * monthStart (i - months)) := by
  have hdate : ∀ j, (DateTime.ofUnix (86400 * monthStart j)).date = ⟨j / 12, j % 12 + 1, 1⟩ := by
    intro j
    rw [DateTime.ofUnix, Int.mul_ediv_cancel_left _ (by omega), ofDays_monthStart]
  have hindex : (DateTime.ofUnix (86400 * monthStart i)).date.monthIndex = i := by
    rw [hdate, Date.monthIndex]
    show 12 * (i / 12) + (i % 12 + 1 - 1) = i
    omega
  have hlength : 1 ≤ monthLength (i - months) := by
    have := monthStart_lt_succ (i - months)
    rw [monthLength]
    omega
  have hrep := representable_of_spelled h
  rw [Representable, hdate] at hrep
  rw [subMonths, hindex, hdate, if_pos hrep, min_eq_left hlength, Option.map_some]
  -- Midnight stays midnight.
  have hmidnight : 86400 * monthStart i % 86400 = 0 := Int.mul_emod_right _ _
  simp only [DateTime.toUnix, DateTime.ofUnix, hmidnight]
  show some (86400 * monthStart (i - months) + 3600 * (0 / 3600)
    + 60 * (86400 * monthStart i % 3600 / 60) + 86400 * monthStart i % 60) = _
  have hhour : 86400 * monthStart i % 3600 = 0 := by omega
  have hminute : 86400 * monthStart i % 60 = 0 := by omega
  rw [hhour, hminute]
  simp

namespace Window

theorem shifted_eq (w : Window) (days : Int) (hfrom : Spelled w.from')
    (huntil : Spelled w.until') (hlo : Spelled (w.from' - 86400 * days))
    (hhi : Spelled (w.until' - 86400 * days)) :
    w.shifted days = some ⟨w.from' - 86400 * days, w.until' - 86400 * days⟩ := by
  refine moved_eq ?_ ?_
  · rw [fromTimestamp_of_spelled hfrom]
    exact subDays_ofUnix hlo
  · rw [fromTimestamp_of_spelled huntil]
    exact subDays_ofUnix hhi

theorem shiftedMonths_eq (i j months : Int) (hfrom : Spelled (86400 * monthStart i))
    (huntil : Spelled (86400 * monthStart j)) (hlo : Spelled (86400 * monthStart (i - months)))
    (hhi : Spelled (86400 * monthStart (j - months))) :
    (Window.mk (86400 * monthStart i) (86400 * monthStart j)).shiftedMonths months
      = some ⟨86400 * monthStart (i - months), 86400 * monthStart (j - months)⟩ := by
  refine moved_eq ?_ ?_
  · rw [fromTimestamp_of_spelled hfrom]
    exact subMonths_monthStart hlo
  · rw [fromTimestamp_of_spelled huntil]
    exact subMonths_monthStart hhi

end Window

/-! ## Whole buckets -/

namespace Period

/-- The whole calendar bucket numbered `i`. -/
def bucket (period : Period) (i : Int) : Window :=
  ⟨period.scale.start i, period.scale.start (i + 1)⟩

/-- A whole calendar bucket: a day, an ISO week, a month or a year, from where it opens
    to where the next one does. -/
def Whole (period : Period) (w : Window) : Prop := ∃ i, w = period.bucket i

/-- A bucket is known by where it ends. -/
theorem bucket_inj_until {period : Period} {i j : Int}
    (h : (period.bucket i).until' = (period.bucket j).until') : i = j := by
  have hsame := period.scale.start_strictMono.injective h
  omega

/-- Between the years before the first and after the last one spelled. -/
def Reaches (period : Period) (i : Int) : Prop :=
  Spelled (period.scale.start (i - 1)) ∧ Spelled (period.scale.start (i + 1))

end Period

/-- **ONE PERIOD BACK** from a whole bucket is the whole bucket before it. -/
theorem Window.preceding_bucket {period : Period} {i : Int} (h : period.Reaches i) :
    (period.bucket i).preceding period = some (period.bucket (i - 1)) := by
  obtain ⟨hlo, hhi⟩ := h
  have hmono := period.scale.start_strictMono.monotone
  have hprev : period.scale.start (i - 1) ≤ period.scale.start i := hmono (by omega)
  have hnext : period.scale.start i ≤ period.scale.start (i + 1) := hmono (by omega)
  have hmid : Spelled (period.scale.start i) := ⟨hlo.1.trans hprev, hnext.trans_lt hhi.2⟩
  have hprevious : period.bucket (i - 1)
      = ⟨period.scale.start (i - 1), period.scale.start i⟩ := by
    rw [Period.bucket, show i - 1 + 1 = i by omega]
  rw [hprevious]
  cases period with
  | day =>
      have hfrom : 86400 * i - 86400 * 1 = 86400 * (i - 1) := by omega
      have huntil : 86400 * (i + 1) - 86400 * 1 = 86400 * i := by omega
      have hshift := shifted_eq (Period.bucket .day i) 1 hmid hhi
        (show Spelled (86400 * i - 86400 * 1) from hfrom ▸ hlo)
        (show Spelled (86400 * (i + 1) - 86400 * 1) from huntil ▸ hmid)
      exact hshift.trans (congrArg some (congrArg₂ Window.mk hfrom huntil))
  | week =>
      have hfrom : 86400 * (7 * i - 3) - 86400 * 7 = 86400 * (7 * (i - 1) - 3) := by omega
      have huntil : 86400 * (7 * (i + 1) - 3) - 86400 * 7 = 86400 * (7 * i - 3) := by omega
      have hshift := shifted_eq (Period.bucket .week i) 7 hmid hhi
        (show Spelled (86400 * (7 * i - 3) - 86400 * 7) from hfrom ▸ hlo)
        (show Spelled (86400 * (7 * (i + 1) - 3) - 86400 * 7) from huntil ▸ hmid)
      exact hshift.trans (congrArg some (congrArg₂ Window.mk hfrom huntil))
  | month =>
      have huntil : i + 1 - 1 = i := by omega
      have hshift := shiftedMonths_eq i (i + 1) 1 hmid hhi hlo
        (by rw [huntil]; exact hmid)
      rw [huntil] at hshift
      exact hshift
  | year =>
      -- Twelve months back from a January is the January before.
      have hfrom : 12 * i - 12 = 12 * (i - 1) := by omega
      have huntil : 12 * (i + 1) - 12 = 12 * i := by omega
      have hshift := shiftedMonths_eq (12 * i) (12 * (i + 1)) 12 hmid hhi
        (by rw [hfrom]; exact hlo) (by rw [huntil]; exact hmid)
      rw [hfrom, huntil] at hshift
      exact hshift

/-- Some second of it is of the years 2 to 9998. -/
def Window.Meets (w : Window) : Prop :=
  ∃ t, w.contains t = true ∧ 2 ≤ (DateTime.ofUnix t).date.year
    ∧ (DateTime.ofUnix t).date.year ≤ 9998

/-- The neighbours of such a bucket are still in the years there are. -/
theorem Period.reaches_of_meets {period : Period} {i : Int} (h : (period.bucket i).Meets) :
    period.Reaches i := by
  obtain ⟨t, hin, hlo, hhi⟩ := h
  obtain ⟨hopen, hclose⟩ := Window.contains_iff.mp hin
  change period.scale.start i ≤ t at hopen
  change t < period.scale.start (i + 1) at hclose
  rw [year_of_unix] at hlo hhi
  have hfirst : -62104060800 ≤ t := by
    have hyear : (Period.scale .year).start 2 = -62104060800 := by decide
    exact hyear ▸ Scale.start_le_iff.mpr hlo
  have hlast : t < 253370764800 := by
    have hyear : (Period.scale .year).start 9999 = 253370764800 := by decide
    refine hyear ▸ not_le.mp fun hle => ?_
    have := Scale.start_le_iff.mp hle
    omega
  have hlen := period.scale_length i
  have hprev := period.scale_length (i - 1)
  rw [show i - 1 + 1 = i by omega] at hprev
  have hmono := period.scale.start_strictMono.monotone
  have hbefore : period.scale.start (i - 1) ≤ period.scale.start (i + 1) := hmono (by omega)
  constructor
  · exact ⟨by omega, by omega⟩
  · exact ⟨by omega, by omega⟩

end Stats

namespace Publish

open Calendar Tiling
open Stats (Period Metric)

variable {F : Type}

/-- `Metric::missing`: the same row with no value. -/
def withheld (metric : Metric F) : Metric F := { metric with value := .missing }

/-- What computes the rows of one bucket: its key, its window, its delta base. -/
abbrev Block (F : Type) : Type := String → Stats.Window → Option Stats.Window → List (Metric F)

/-- The rows of one bucket of the walk. -/
def walkBucket (period : Period) (coverage : Coverage) (block : Block F)
    (row : String × Stats.Window) : List (Metric F) :=
  let previous := (row.2.preceding period).filter coverage.covers
  if coverage.covers row.2 then block row.1 row.2 previous
  else (block row.1 ⟨row.2.from', row.2.from'⟩ none).map withheld

/-- `walk`: one bucket per period of the window, oldest first. -/
def walk (window : Stats.Window) (period : Period) (coverage : Coverage) (block : Block F) :
    List (Metric F) :=
  (window.buckets period).flatMap (walkBucket period coverage block)

/-- A bucket the archive can speak for. -/
def Coverage.base (coverage : Coverage) (window : Stats.Window) : Option Stats.Window :=
  if coverage.covers window then some window else none

variable {period : Period} {coverage : Coverage} {block : Block F} {i : Int}

/-- The walk hands a whole bucket the whole bucket before it. -/
theorem walkBucket_bucket (h : period.Reaches i) (key : String) :
    walkBucket period coverage block (key, period.bucket i)
      = if coverage.covers (period.bucket i) then
          block key (period.bucket i) (coverage.base (period.bucket (i - 1)))
        else (block key ⟨period.scale.start i, period.scale.start i⟩ none).map withheld := by
  rw [walkBucket, Stats.Window.preceding_bucket h]
  rfl

/-- **A WALK OVER WHOLE BUCKETS**: each is compared against the one before it, the
    first of them against the one before the window. -/
theorem walk_whole {a b : Int} (hab : a < b)
    (h : (Stats.Window.mk (period.scale.start a) (period.scale.start b)).Written)
    (hreach : ∀ i, a ≤ i → i < b → period.Reaches i) :
    walk ⟨period.scale.start a, period.scale.start b⟩ period coverage block
      = (ints a (b - 1)).flatMap fun i =>
          if coverage.covers (period.bucket i) then
            block (period.key (period.scale.start i)) (period.bucket i)
              (coverage.base (period.bucket (i - 1)))
          else (block (period.key (period.scale.start i))
            ⟨period.scale.start i, period.scale.start i⟩ none).map withheld := by
  rw [walk, buckets_whole hab h, List.flatMap_map]
  refine List.flatMap_congr fun i hi => ?_
  obtain ⟨hlo, hhi⟩ := mem_ints.mp hi
  exact walkBucket_bucket (hreach i hlo (by omega)) (period.key (period.scale.start i))

/-- Of two rows that follow each other, the second whole: the first shows what the
    window holds of the bucket before. -/
theorem row_before {w : Stats.Window} (hdated : w.Dated) (hlt : w.from' < w.until') {k : Nat}
    {row row' : String × Stats.Window} (hrow : (w.buckets period)[k]? = some row)
    (hrow' : (w.buckets period)[k + 1]? = some row') (hwhole : row'.2 = period.bucket i) :
    row.2 = ⟨max (period.bucket (i - 1)).from' w.from', (period.bucket (i - 1)).until'⟩ := by
  rw [Stats.Window.buckets_eq hdated hlt, Stats.Window.rows, List.getElem?_map] at hrow hrow'
  obtain ⟨j, hj, rfl⟩ := Option.map_eq_some_iff.mp hrow
  obtain ⟨j', hj', rfl⟩ := Option.map_eq_some_iff.mp hrow'
  have hnext : j' = j + 1 := by
    obtain ⟨hk, -⟩ := getElem?_ints.mp hj
    obtain ⟨hk', -⟩ := getElem?_ints.mp hj'
    omega
  obtain ⟨hlo, hhi⟩ := mem_ints.mp (List.mem_of_getElem? hj)
  obtain ⟨hlo', hhi'⟩ := mem_ints.mp (List.mem_of_getElem? hj')
  -- The second row opens the bucket it is the whole of.
  have hcell : period.scale.cell w.from' w.until' j'
      = (period.scale.start i, period.scale.start (i + 1)) :=
    congrArg Stats.Window.interval hwhole
  have hopen : Inside (period.scale.start i) (period.scale.cell w.from' w.until' j') := by
    rw [hcell]
    exact ⟨le_refl _, period.scale.start_lt i⟩
  have hj'i : j' = i := (Scale.index_of_cell hopen).symm.trans (period.scale.index_start i)
  have hmeet := (Scale.cell_spec hlt hlo hhi).2.1 (by omega)
  rw [← hnext, hcell] at hmeet
  have hback : period.bucket (i - 1) = ⟨period.scale.start j, period.scale.start i⟩ := by
    rw [Period.bucket, show i - 1 + 1 = i by omega, show i - 1 = j by omega]
  rw [hback]
  exact congrArg (Stats.Window.mk (max (period.scale.start j) w.from')) hmeet

/-- **THE PREVIOUS BUCKET IS THE PREVIOUS BUCKET**: of a whole bucket that meets the
    years 2 to 9998, one period earlier is the one whole bucket that ends where it
    starts; it is what the walk hands over as the delta base, when the archive covers
    it, and in the walk's own rows it is the row before. -/
theorem preceding_is_before (period : Period) {b : Stats.Window} (hwhole : period.Whole b)
    (hyears : b.Meets) :
    ∃ p, b.preceding period = some p ∧ period.Whole p ∧ p.until' = b.from'
      ∧ (∀ q, period.Whole q → q.until' = b.from' → q = p)
      ∧ (∀ (F : Type) (coverage : Coverage) (block : Block F) (key : String),
          coverage.covers b = true →
            walkBucket period coverage block (key, b) = block key b (coverage.base p))
      ∧ ∀ (w : Stats.Window) (k : Nat) (row row' : String × Stats.Window), w.Dated →
          w.from' < w.until' → (w.buckets period)[k]? = some row →
            (w.buckets period)[k + 1]? = some row' → row'.2 = b →
              row.2 = ⟨max p.from' w.from', p.until'⟩ := by
  obtain ⟨i, rfl⟩ := hwhole
  have hreach := Period.reaches_of_meets hyears
  have hend : (period.bucket (i - 1)).until' = (period.bucket i).from' :=
    congrArg period.scale.start (show i - 1 + 1 = i by omega)
  refine ⟨period.bucket (i - 1), Stats.Window.preceding_bucket hreach, ⟨i - 1, rfl⟩, hend, ?_, ?_,
    ?_⟩
  · rintro q ⟨j, rfl⟩ hq
    rw [Period.bucket_inj_until (hq.trans hend.symm)]
  · intro F coverage block key hcovers
    rw [walkBucket_bucket hreach, if_pos hcovers]
  · intro w k row row' hdated hlt hrow hrow' hlast
    exact row_before hdated hlt hrow hrow' hlast

/-- March of a leap year, against the twenty-nine days of February. -/
theorem february_before_march :
    (Stats.Window.mk 1709251200 1711929600).preceding .month = some ⟨1706745600, 1709251200⟩ := by
  obtain ⟨p, hp, -, -, honly, -⟩ := preceding_is_before .month
    (b := ⟨1709251200, 1711929600⟩) ⟨24290, by decide⟩
    ⟨1709251200, by decide, by decide, by decide⟩
  rw [hp, honly ⟨1706745600, 1709251200⟩ ⟨24289, by decide⟩ rfl]

end Publish
