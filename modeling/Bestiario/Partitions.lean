import Bestiario.Address
import Bestiario.Series

/-! # What the archive can speak for

    `crates/stats/src/bucket.rs`: the extent of the archive, the windows it
    reaches into, and the series partitions between its two ends.

    A bucket is a cell of a scale, months or years, and is known there by its
    INDEX; the partitions are the cells from the one that holds the earliest
    event to the one that holds the latest. -/

namespace Publish

open Calendar Tiling Timestamp
open Stats (Period year_of_unix fromTimestamp withYmd_monthStart)

/-- `Coverage`: the archive's first and last stored events, each if known. -/
structure Coverage where
  earliest : Option Int
  latest : Option Int
  deriving DecidableEq, Repr

namespace Coverage

/-- `Coverage::since`. -/
def since (earliest : Int) : Coverage := ⟨some earliest, none⟩

/-- `Coverage::between`. -/
def between (earliest latest : Int) : Coverage := ⟨some earliest, some latest⟩

/-- Whether a window reaches into what the archive holds. -/
def covers (coverage : Coverage) (window : Stats.Window) : Bool :=
  (coverage.earliest.any fun earliest => decide (window.until' > earliest))
    && coverage.latest.all fun latest => decide (window.from' ≤ latest)

/-- The ceiling of the archive, never past the clock. -/
def ceiling (coverage : Coverage) (now : Int) : Int :=
  coverage.latest.elim now fun latest => min latest now

/-- `Bucket::Month`, where there is such a month. -/
def monthBucket (year month : Int) : List Bucket :=
  match Year.new year, Month.new month with
  | some year, some month => [.month year month]
  | _, _ => []

/-- The month after. -/
def following (year month : Int) : Int × Int :=
  if month = 12 then (year + 1, 1) else (year, month + 1)

/-- The months from `(year, month)` on, up to and including `last`. -/
def months (last : Int × Int) : Nat → Int × Int → List Bucket
  | 0, _ => []
  | fuel + 1, (year, month) =>
      if year < last.1 ∨ year = last.1 ∧ month ≤ last.2 then
        monthBucket year month ++ months last fuel (following year month)
      else []

/-- `Coverage::partitions`: the series partitions the archive can speak for. -/
def partitions (coverage : Coverage) (resolution : Resolution) (now : Int) : List Bucket :=
  match coverage.earliest.filter fun earliest => decide (earliest ≤ now) with
  | none => []
  | some earliest =>
    match fromTimestamp earliest, fromTimestamp (coverage.ceiling now) with
    | some first, some last =>
      match resolution with
      | .monthly => (ints first.date.year last.date.year).filterMap fun year =>
          (Year.new year).map .year
      | .daily | .weekly =>
          months (last.date.year, last.date.month)
            (12 * last.date.year + last.date.month + 1
              - (12 * first.date.year + first.date.month)).toNat
            (first.date.year, first.date.month)
    | _, _ => []

end Coverage

/-- An instant of the years 1 to 9998. -/
def InYears (t : Int) : Prop :=
  1 ≤ (DateTime.ofUnix t).date.year ∧ (DateTime.ofUnix t).date.year ≤ 9998

instance (t : Int) : Decidable (InYears t) := inferInstanceAs (Decidable (_ ∧ _))

/-! ## Buckets as cells -/

/-- The period a partition of this resolution spans. -/
def Resolution.period : Resolution → Period
  | .daily => .month
  | .weekly => .month
  | .monthly => .year

/-- The number of a bucket among the months, or the years. -/
def Bucket.index : Bucket → Int
  | .month y m => 12 * y.get + (m.get - 1)
  | .year y => y.get

theorem Bucket.first_month {year month : Int} (hy : -262143 ≤ year ∧ year ≤ 262142)
    (hm : 1 ≤ month ∧ month ≤ 12) :
    Bucket.first year month = (Period.scale .month).start (12 * year + (month - 1)) := by
  have hdiv : (12 * year + (month - 1)) / 12 = year := by omega
  have hmod : (12 * year + (month - 1)) % 12 + 1 = month := by omega
  have hstart := withYmd_monthStart (i := 12 * year + (month - 1)) (by omega) (by omega)
  rw [hdiv, hmod] at hstart
  rw [Bucket.first, hstart]
  rfl

/-- **A BUCKET SPANS ITS CELL.** -/
theorem Bucket.window_eq {bucket : Bucket} {resolution : Resolution}
    (h : bucket.fits resolution = true) :
    bucket.window = ⟨resolution.period.scale.start bucket.index,
      resolution.period.scale.start (bucket.index + 1)⟩ := by
  have hyear : ∀ y : Int, (Period.scale .year).start y = (Period.scale .month).start (12 * y) :=
    fun _ => rfl
  cases bucket with
  | month y m =>
      have hy := y.spelled
      have hm := m.ofYear
      have hperiod : resolution.period = .month := by
        cases resolution with
        | daily => rfl
        | weekly => rfl
        | monthly => cases h
      rw [hperiod, Bucket.window, Bucket.index]
      by_cases hdec : m.get = 12
      · rw [if_pos hdec, Bucket.first_month (by omega) (by omega),
          Bucket.first_month (by omega) (by omega), hdec,
          show 12 * (y.get + 1) + (1 - 1) = 12 * y.get + (12 - 1) + 1 by omega]
      · rw [if_neg hdec, Bucket.first_month (by omega) hm,
          Bucket.first_month (by omega) (by omega),
          show 12 * y.get + (m.get + 1 - 1) = 12 * y.get + (m.get - 1) + 1 by omega]
  | year y =>
      have hy := y.spelled
      have hperiod : resolution.period = .year := by
        cases resolution with
        | daily => cases h
        | weekly => cases h
        | monthly => rfl
      rw [hperiod, Bucket.window, Bucket.index, hyear, hyear,
        Bucket.first_month (by omega) (by omega), Bucket.first_month (by omega) (by omega),
        show 12 * y.get + (1 - 1) = 12 * y.get by omega,
        show 12 * (y.get + 1) + (1 - 1) = 12 * (y.get + 1) by omega]

theorem fits_weekly (bucket : Bucket) : bucket.fits .weekly = bucket.fits .daily := by
  cases bucket <;> rfl

/-- Buckets of one resolution are told apart by their index. -/
theorem Bucket.index_injective {b b' : Bucket} {resolution : Resolution}
    (h : b.fits resolution = true) (h' : b'.fits resolution = true)
    (heq : b.index = b'.index) : b = b' := by
  cases b with
  | month y m =>
      cases b' with
      | month y' m' =>
          have hm := m.ofYear
          have hm' := m'.ofYear
          simp only [Bucket.index] at heq
          obtain ⟨y, hy⟩ := y
          obtain ⟨y', hy'⟩ := y'
          obtain ⟨m, hof⟩ := m
          obtain ⟨m', hof'⟩ := m'
          simp only at heq hm hm'
          obtain ⟨rfl, rfl⟩ : y = y' ∧ m = m' := by omega
          rfl
      | year y' => cases resolution <;> simp [Bucket.fits] at h h'
  | year y =>
      cases b' with
      | month y' m' => cases resolution <;> simp [Bucket.fits] at h h'
      | year y' =>
          obtain ⟨y, hy⟩ := y
          obtain ⟨y', hy'⟩ := y'
          simp only [Bucket.index] at heq
          subst heq
          rfl

theorem Year.get_of_new {year : Int} {y : Year} (h : Year.new year = some y) :
    y.get = year := by
  rw [Year.new] at h
  split at h
  · cases h
    rfl
  · cases h

theorem Month.get_of_new {month : Int} {m : Month} (h : Month.new month = some m) :
    m.get = month := by
  rw [Month.new] at h
  split at h
  · cases h
    rfl
  · cases h

/-- **THE TEXT OF A BUCKET SORTS AS ITS DATE.** -/
theorem Bucket.toString_lt {b b' : Bucket} {resolution : Resolution}
    (h : b.fits resolution = true) (h' : b'.fits resolution = true)
    (hlt : b.index < b'.index) : b.toString < b'.toString := by
  rw [String.lt_iff_toList_lt]
  cases b with
  | month y m =>
      cases b' with
      | month y' m' =>
          have hy := y.spelled
          have hy' := y'.spelled
          have hm := m.ofYear
          have hm' := m'.ofYear
          simp only [Bucket.index] at hlt
          simp only [Bucket.toString, Year.toString, Month.toString, String.toList_append,
            String.toList_ofList, List.append_assoc]
          by_cases hyear : y.get = y'.get
          · rw [hyear]
            refine List.append_left_lt (List.append_left_lt ?_)
            have hmonth : pad 2 m.get.toNat ++ [] < pad 2 m'.get.toNat ++ [] :=
              pad_append_lt (by omega) (by omega)
            rw [List.append_nil, List.append_nil] at hmonth
            exact hmonth
          · exact pad_append_lt (by omega) (by omega)
      | year y' => cases resolution <;> simp [Bucket.fits] at h h'
  | year y =>
      cases b' with
      | month y' m' => cases resolution <;> simp [Bucket.fits] at h h'
      | year y' =>
          have hy := y.spelled
          have hy' := y'.spelled
          simp only [Bucket.index] at hlt
          have hyear : pad 4 y.get.toNat ++ [] < pad 4 y'.get.toNat ++ [] :=
            pad_append_lt (by omega) (by omega)
          rw [List.append_nil, List.append_nil] at hyear
          simp only [Bucket.toString, Year.toString, String.toList_ofList]
          exact hyear
/-! ## The partitions are the cells between the two ends -/

namespace Coverage

theorem monthBucket_eq {year month : Int} (hy : 0 ≤ year ∧ year ≤ 9999)
    (hm : 1 ≤ month ∧ month ≤ 12) : monthBucket year month = [.month ⟨year, hy⟩ ⟨month, hm⟩] := by
  rw [monthBucket, Year.new, Month.new, dif_pos hy, dif_pos hm]

/-- The loop visits one month after another. -/
theorem months_index {ly lm : Int} (hly : ly ≤ 9999) (hlm : 1 ≤ lm ∧ lm ≤ 12) {fuel : Nat}
    {year month : Int} (hy : 0 ≤ year) (hm : 1 ≤ month ∧ month ≤ 12)
    (hfuel : (12 * ly + lm + 1 - (12 * year + month)).toNat ≤ fuel) :
    (months (ly, lm) fuel (year, month)).map Bucket.index
        = ints (12 * year + (month - 1)) (12 * ly + (lm - 1))
      ∧ ∀ b ∈ months (ly, lm) fuel (year, month), b.fits .daily = true := by
  induction fuel generalizing year month with
  | zero =>
      rw [ints_of_lt (by omega)]
      exact ⟨rfl, fun b hb => by cases hb⟩
  | succ fuel ih =>
      rw [months]
      by_cases hin : year < ly ∨ year = ly ∧ month ≤ lm
      · have hstep : 12 * (following year month).1 + ((following year month).2 - 1)
            = 12 * year + (month - 1) + 1 := by
          rw [following]
          split <;> simp only <;> omega
        have hmonth : 1 ≤ (following year month).2 ∧ (following year month).2 ≤ 12 := by
          rw [following]
          split <;> simp only <;> omega
        have hyear : 0 ≤ (following year month).1 := by
          rw [following]
          split <;> simp only <;> omega
        obtain ⟨hindex, hfits⟩ := ih hyear hmonth (by omega)
        rw [if_pos hin, monthBucket_eq ⟨hy, by omega⟩ hm, List.singleton_append,
          List.map_cons, hindex, hstep, ints_cons (show 12 * year + (month - 1)
            ≤ 12 * ly + (lm - 1) by omega)]
        refine ⟨rfl, fun b hb => ?_⟩
        rcases List.mem_cons.mp hb with rfl | hmem
        · rfl
        · exact hfits b hmem
      · rw [if_neg hin, ints_of_lt (by omega)]
        exact ⟨rfl, fun b hb => by cases hb⟩

/-- The years are visited one after another. -/
theorem years_index {a b : Int} (ha : 0 ≤ a) (hb : b ≤ 9999) :
    ((ints a b).filterMap fun year => (Year.new year).map Bucket.year).map Bucket.index = ints a b
      ∧ ∀ bucket ∈ (ints a b).filterMap fun year => (Year.new year).map Bucket.year,
        bucket.fits .monthly = true := by
  refine ⟨?_, fun bucket hmem => ?_⟩
  · have hsome : ∀ year ∈ ints a b, ((Year.new year).map Bucket.year).map Bucket.index
        = some year := by
      intro year hyear
      obtain ⟨hlo, hhi⟩ := mem_ints.mp hyear
      rw [Year.new, dif_pos ⟨by omega, by omega⟩]
      rfl
    rw [List.map_filterMap, List.filterMap_congr hsome, List.filterMap_some]
  · obtain ⟨year, -, hbucket⟩ := List.mem_filterMap.mp hmem
    obtain ⟨y, -, rfl⟩ := Option.map_eq_some_iff.mp hbucket
    rfl

theorem mem_monthBucket {year month : Int} {bucket : Bucket}
    (h : bucket ∈ monthBucket year month) :
    bucket.index = 12 * year + (month - 1) ∧ bucket.fits .daily = true := by
  rw [monthBucket] at h
  split at h
  · rename_i y m hy hm
    rw [List.mem_singleton.mp h]
    rw [Bucket.index, Year.get_of_new hy, Month.get_of_new hm]
    exact ⟨rfl, rfl⟩
  · cases h

/-- The loop never goes back. -/
theorem months_ascending {last : Int × Int} {fuel : Nat} {year month : Int} :
    (months last fuel (year, month)).Pairwise (fun a b => a.index < b.index)
      ∧ ∀ b ∈ months last fuel (year, month),
        12 * year + (month - 1) ≤ b.index ∧ b.fits .daily = true := by
  induction fuel generalizing year month with
  | zero => exact ⟨List.Pairwise.nil, fun b hb => nomatch hb⟩
  | succ fuel ih =>
      rw [months]
      split
      · have hstep : 12 * (following year month).1 + ((following year month).2 - 1)
            = 12 * year + (month - 1) + 1 := by
          rw [following]
          split <;> simp only <;> omega
        obtain ⟨hascending, hlater⟩ := @ih (following year month).1 (following year month).2
        constructor
        · refine List.pairwise_append.mpr ⟨?_, hascending, fun a ha b hb => ?_⟩
          · rw [monthBucket]
            split
            · exact List.pairwise_singleton _ _
            · exact List.Pairwise.nil
          · have hfirst := (mem_monthBucket ha).1
            have hthen := (hlater b hb).1
            omega
        · intro b hb
          rcases List.mem_append.mp hb with hb | hb
          · obtain ⟨hindex, hfits⟩ := mem_monthBucket hb
            exact ⟨le_of_eq hindex.symm, hfits⟩
          · obtain ⟨hindex, hfits⟩ := hlater b hb
            exact ⟨by omega, hfits⟩
      · exact ⟨List.Pairwise.nil, fun b hb => nomatch hb⟩

/-- **PARTITIONS ARE LISTED IN ORDER**, whatever the archive claims to hold. -/
theorem partitions_ordered (coverage : Coverage) (resolution : Resolution) (now : Int) :
    (coverage.partitions resolution now).Pairwise (fun a b => a.index < b.index)
      ∧ ∀ b ∈ coverage.partitions resolution now, b.fits resolution = true := by
  rw [partitions]
  split
  · exact ⟨List.Pairwise.nil, fun b hb => nomatch hb⟩
  · split
    · cases resolution with
      | daily => exact ⟨months_ascending.1, fun b hb => (months_ascending.2 b hb).2⟩
      | weekly =>
          exact ⟨months_ascending.1,
            fun b hb => (fits_weekly b).trans (months_ascending.2 b hb).2⟩
      | monthly =>
          constructor
          · refine (ints_pairwise _ _).filterMap _ fun a b hlt bucket ha bucket' hb => ?_
            obtain ⟨y, hy, rfl⟩ := Option.map_eq_some_iff.mp ha
            obtain ⟨y', hy', rfl⟩ := Option.map_eq_some_iff.mp hb
            rw [Bucket.index, Bucket.index, Year.get_of_new hy, Year.get_of_new hy']
            exact hlt
          · intro bucket hmem
            obtain ⟨year, -, hbucket⟩ := List.mem_filterMap.mp hmem
            obtain ⟨y, -, rfl⟩ := Option.map_eq_some_iff.mp hbucket
            rfl
    · exact ⟨List.Pairwise.nil, fun b hb => nomatch hb⟩
/-- An extent whose floor is not past its last event nor the clock, all of them
    in the years 1 to 9998. -/
structure Reads (coverage : Coverage) (e now : Int) : Prop where
  earliest : coverage.earliest = some e
  latest : ∀ l, coverage.latest = some l → e ≤ l ∧ InYears l
  started : e ≤ now
  floor : InYears e
  clock : InYears now

theorem Reads.le_ceiling {coverage : Coverage} {e now : Int} (h : coverage.Reads e now) :
    e ≤ coverage.ceiling now := by
  have hstarted := h.started
  rw [Coverage.ceiling]
  cases hl : coverage.latest with
  | none => exact hstarted
  | some l => exact le_min (h.latest l hl).1 hstarted

theorem Reads.ceiling {coverage : Coverage} {e now : Int} (h : coverage.Reads e now) :
    InYears (coverage.ceiling now) := by
  rw [Coverage.ceiling]
  cases hl : coverage.latest with
  | none => exact h.clock
  | some l =>
      rcases min_choice l now with hmin | hmin
      · rw [Option.elim_some, hmin]
        exact (h.latest l hl).2
      · rw [Option.elim_some, hmin]
        exact h.clock

/-- **THE PARTITIONS, BY THEIR NUMBERS**: one for each cell between the floor and
    the ceiling, in order. -/
theorem partitions_index {coverage : Coverage} {e now : Int} (h : coverage.Reads e now)
    (resolution : Resolution) :
    (coverage.partitions resolution now).map Bucket.index
        = ints (resolution.period.scale.index e)
            (resolution.period.scale.index (coverage.ceiling now))
      ∧ ∀ b ∈ coverage.partitions resolution now, b.fits resolution = true := by
  obtain ⟨hlo, hhi⟩ := h.floor
  obtain ⟨hlo', hhi'⟩ := h.ceiling
  have hrep : fromTimestamp e = some (DateTime.ofUnix e) :=
    if_pos (show Stats.Representable e from ⟨by omega, by omega⟩)
  have hrep' : fromTimestamp (coverage.ceiling now)
      = some (DateTime.ofUnix (coverage.ceiling now)) :=
    if_pos (show Stats.Representable (coverage.ceiling now) from ⟨by omega, by omega⟩)
  have hearliest : coverage.earliest.filter (fun earliest => decide (earliest ≤ now))
      = some e := by
    rw [h.earliest, Option.filter_some, if_pos (decide_eq_true h.started)]
  simp only [partitions, hearliest, hrep, hrep']
  generalize hfirst : DateTime.ofUnix e = first at hlo hhi
  generalize hlast : DateTime.ofUnix (coverage.ceiling now) = last at hlo' hhi'
  have hm : 1 ≤ first.date.month ∧ first.date.month ≤ 12 := by
    have := ofUnix_bounds e
    rw [hfirst] at this
    omega
  have hm' : 1 ≤ last.date.month ∧ last.date.month ≤ 12 := by
    have := ofUnix_bounds (coverage.ceiling now)
    rw [hlast] at this
    omega
  -- Two of the resolutions cut by months, the third by years.
  have hmonths := months_index (show last.date.year ≤ 9999 by omega) hm'
    (show 0 ≤ first.date.year by omega) hm (le_refl _)
  have hindex : (Period.scale .month).index e = 12 * first.date.year + (first.date.month - 1) := by
    rw [← hfirst]
    rfl
  have hindex' : (Period.scale .month).index (coverage.ceiling now)
      = 12 * last.date.year + (last.date.month - 1) := by
    rw [← hlast]
    rfl
  cases resolution with
  | daily =>
      rw [Resolution.period, hindex, hindex']
      exact hmonths
  | weekly =>
      rw [Resolution.period, hindex, hindex']
      exact ⟨hmonths.1, fun b hb => (fits_weekly b).trans (hmonths.2 b hb)⟩
  | monthly =>
      rw [Resolution.period, ← year_of_unix, ← year_of_unix, hfirst, hlast]
      exact years_index (by omega) (by omega)

theorem mem_partitions {coverage : Coverage} {e now : Int} (h : coverage.Reads e now)
    {resolution : Resolution} {bucket : Bucket} :
    bucket ∈ coverage.partitions resolution now
      ↔ bucket.fits resolution = true ∧ resolution.period.scale.index e ≤ bucket.index
        ∧ bucket.index ≤ resolution.period.scale.index (coverage.ceiling now) := by
  obtain ⟨hindex, hfits⟩ := partitions_index h resolution
  constructor
  · intro hmem
    have hin : bucket.index ∈ (coverage.partitions resolution now).map Bucket.index :=
      List.mem_map_of_mem hmem
    rw [hindex, mem_ints] at hin
    exact ⟨hfits bucket hmem, hin⟩
  · rintro ⟨hfit, hin⟩
    have hin' : bucket.index ∈ (coverage.partitions resolution now).map Bucket.index := by
      rw [hindex, mem_ints]
      exact hin
    obtain ⟨b, hb, heq⟩ := List.mem_map.mp hin'
    exact Bucket.index_injective (hfits b hb) hfit heq ▸ hb

/-- A bucket is listed exactly when its span meets what the archive holds. -/
theorem mem_partitions_iff_meets {coverage : Coverage} {e now : Int}
    (h : coverage.Reads e now) {resolution : Resolution} {bucket : Bucket}
    (hfits : bucket.fits resolution = true) :
    bucket ∈ coverage.partitions resolution now
      ↔ bucket.window.from' ≤ coverage.ceiling now ∧ e < bucket.window.until' := by
  rw [mem_partitions h, Bucket.window_eq hfits]
  simp only [hfits, true_and]
  rw [Scale.start_le_iff, and_comm]
  refine and_congr_right fun _ => ?_
  rw [← not_le, Scale.start_le_iff]
  omega

/-- What a window has to meet to be covered. -/
theorem covers_iff {coverage : Coverage} {e : Int} (h : coverage.earliest = some e)
    {window : Stats.Window} :
    coverage.covers window = true
      ↔ e < window.until' ∧ ∀ l, coverage.latest = some l → window.from' ≤ l := by
  rw [covers, h, Option.any_some, Bool.and_eq_true, decide_eq_true_eq]
  refine and_congr_right fun _ => ?_
  cases coverage.latest with
  | none => simp
  | some l => simp

/-- Every listed bucket is covered. -/
theorem covers_of_mem {coverage : Coverage} {e now : Int} (h : coverage.Reads e now)
    {resolution : Resolution} {bucket : Bucket}
    (hmem : bucket ∈ coverage.partitions resolution now) :
    coverage.covers bucket.window = true := by
  obtain ⟨hfits, -⟩ := (mem_partitions h).mp hmem
  obtain ⟨hfrom, huntil⟩ := (mem_partitions_iff_meets h hfits).mp hmem
  refine (covers_iff h.earliest).mpr ⟨huntil, fun l hl => ?_⟩
  rw [ceiling, hl] at hfrom
  exact le_trans hfrom (min_le_left l now)

end Coverage

end Publish
