import Bestiario.Snapshot

/-! # The rows of a partition

    Days and months come from the walk that cuts the span, weeks from a loop
    that steps whole weeks.  Over the years an archive can have, both are the
    same thing: a row for each cell of the calendar that OPENS inside the span,
    with the cell's own key and the whole cell for its window.

    The spans of consecutive partitions meet end to end, so the rows of a series
    are the cells that open between the ends of its first and last span. -/

namespace Publish

open Calendar Tiling Timestamp
open Stats (Period)

/-- What a row of this resolution covers. -/
def Resolution.row : Resolution → Period
  | .daily => .day
  | .weekly => .week
  | .monthly => .month

/-- The row of one cell. -/
def rowAt (period : Period) (i : Int) : String × Stats.Window :=
  (period.key (period.scale.start i), ⟨period.scale.start i, period.scale.start (i + 1)⟩)

/-- Between two openings the walk gives every cell, whole. -/
theorem buckets_whole {period : Period} {a b : Int} (hab : a < b)
    (h : (Stats.Window.mk (period.scale.start a) (period.scale.start b)).Written) :
    (Stats.Window.mk (period.scale.start a) (period.scale.start b)).buckets period
      = (ints a (b - 1)).map (rowAt period) := by
  rw [h.buckets (period.scale.start_strictMono hab), Stats.Window.rows, Scale.cells_whole]
  refine List.map_congr_left fun i hi => ?_
  obtain ⟨hlo, hhi⟩ := mem_ints.mp hi
  rw [Scale.cell_whole hlo (by omega)]
  rfl

/-! ## Weeks -/

/-- The Monday the arithmetic finds is the one the calendar has. -/
theorem mondayOf_eq (at' : Int) :
    mondayOf at' = (Period.scale .week).start ((Period.scale .week).index at') := by
  show (at' + 3 * 86400) / (7 * 86400) * (7 * 86400) - 3 * 86400
    = 86400 * (7 * ((at' / 86400 + 3) / 7) - 3)
  omega

theorem week_start_succ (i : Int) :
    (Period.scale .week).start (i + 1) = (Period.scale .week).start i + week := by
  show 86400 * (7 * (i + 1) - 3) = 86400 * (7 * i - 3) + 7 * 86400
  omega

/-- One week is one row. -/
theorem week_head {i : Int} (hlo : -62167219200 ≤ (Period.scale .week).start i)
    (hhi : (Period.scale .week).start i < 253402300800) :
    ((Stats.Window.mk ((Period.scale .week).start i)
        ((Period.scale .week).start (i + 1))).buckets .week).head?
      = some (rowAt .week i) := by
  have hbounded : (Stats.Window.mk ((Period.scale .week).start i)
      ((Period.scale .week).start (i + 1))).Written := by
    refine ⟨hlo, ?_⟩
    have hstep := week_start_succ i
    simp only [week] at hstep ⊢
    omega
  rw [buckets_whole (by omega) hbounded, ints_cons (by omega), List.map_cons, List.head?_cons]

/-- The loop steps from Monday to Monday until the span ends. -/
theorem weeksFrom_eq {until' : Int} (hend : until' ≤ 253402300800) {fuel : Nat} {i : Int}
    (hlo : -62167219200 ≤ (Period.scale .week).start i)
    (hfuel : ((Period.scale .week).index (until' - 1) + 1 - i).toNat ≤ fuel) :
    weeksFrom until' fuel ((Period.scale .week).start i)
      = (ints i ((Period.scale .week).index (until' - 1))).map (rowAt .week) := by
  induction fuel generalizing i with
  | zero =>
      rw [ints_of_lt (by omega)]
      rfl
  | succ fuel ih =>
      have hin : (Period.scale .week).start i ≤ until' - 1
          ↔ i ≤ (Period.scale .week).index (until' - 1) := Scale.start_le_iff
      rw [weeksFrom]
      by_cases hopen : (Period.scale .week).start i < until'
      · have hstep : saturatingAdd ((Period.scale .week).start i) week
            = (Period.scale .week).start (i + 1) := by
          rw [week_start_succ, saturatingAdd, week]
          omega
        have hnext : -62167219200 ≤ (Period.scale .week).start (i + 1) :=
          le_trans hlo (le_of_lt ((Period.scale .week).start_lt i))
        rw [if_pos hopen, ints_cons (hin.mp (by omega)), List.map_cons, hstep]
        simp only [week_head hlo (by omega), ih hnext (by omega)]
        rfl
      · rw [if_neg hopen, ints_of_lt (by omega)]
        rfl

/-- **THE WEEKS OF A SPAN ARE THOSE THAT OPEN IN IT.** -/
theorem weeksOf_eq {span : Stats.Window} (hlo : -62167219200 ≤ span.from')
    (hhi : span.until' ≤ 253402300800) :
    weeksOf span
      = ((Period.scale .week).opening span.from' span.until').map (rowAt .week) := by
  -- The first Monday of the span opens the week after the one before it is in.
  have hfirst : (if mondayOf span.from' < span.from' then mondayOf span.from' + week
        else mondayOf span.from')
      = (Period.scale .week).start ((Period.scale .week).index (span.from' - 1) + 1) := by
    show _ = 86400 * (7 * (((span.from' - 1) / 86400 + 3) / 7 + 1) - 3)
    simp only [mondayOf, week, epochToMonday]
    omega
  have hopen : span.from'
      ≤ (Period.scale .week).start ((Period.scale .week).index (span.from' - 1) + 1) := by
    have := (Period.scale .week).lt_start (span.from' - 1)
    omega
  have hfuel : ((Period.scale .week).index (span.until' - 1) + 1
        - ((Period.scale .week).index (span.from' - 1) + 1)).toNat
      ≤ (span.until'
        - (Period.scale .week).start ((Period.scale .week).index (span.from' - 1) + 1)).toNat := by
    by_cases hle : (Period.scale .week).index (span.from' - 1) + 1
        ≤ (Period.scale .week).index (span.until' - 1)
    · have hsteps := (Period.scale .week).start_add hle
      have hlast := (Period.scale .week).start_index (span.until' - 1)
      omega
    · omega
  simp only [weeksOf, hfirst]
  exact weeksFrom_eq hhi (le_trans hlo hopen) hfuel

/-! ## Every resolution -/

/-- The span of one cell of months, or of years. -/
def spanAt (resolution : Resolution) (i : Int) : Stats.Window :=
  ⟨resolution.period.scale.start i, resolution.period.scale.start (i + 1)⟩

/-- **THE ROWS OF A SPAN ARE THE CELLS THAT OPEN IN IT.** -/
theorem rowsOf_eq (resolution : Resolution) {i : Int}
    (hlo : -62167219200 ≤ (spanAt resolution i).from')
    (hhi : (spanAt resolution i).until' ≤ 253402300800) :
    rowsOf resolution (spanAt resolution i)
      = (resolution.row.scale.opening (spanAt resolution i).from'
          (spanAt resolution i).until').map (rowAt resolution.row) := by
  cases resolution with
  | daily =>
      have hspan : spanAt .daily i = ⟨(Period.scale .day).start (monthStart i),
          (Period.scale .day).start (monthStart (i + 1))⟩ := rfl
      rw [hspan] at hlo hhi ⊢
      show Stats.Window.buckets _ .day = ((Period.scale .day).opening _ _).map _
      rw [buckets_whole (monthStart_lt_succ i) ⟨hlo, by omega⟩, Scale.opening_whole]
      rfl
  | monthly =>
      have hspan : spanAt .monthly i = ⟨(Period.scale .month).start (12 * i),
          (Period.scale .month).start (12 * (i + 1))⟩ := rfl
      rw [hspan] at hlo hhi ⊢
      show Stats.Window.buckets _ .month = ((Period.scale .month).opening _ _).map _
      rw [buckets_whole (by omega) ⟨hlo, by omega⟩, Scale.opening_whole]
      rfl
  | weekly => exact weeksOf_eq hlo hhi

/-- An instant of the years has its cell inside them. -/
theorem spanAt_bounds (resolution : Resolution) {lo hi i : Int} (hin : InYears lo)
    (hin' : InYears hi) (h : resolution.period.scale.index lo ≤ i)
    (h' : i ≤ resolution.period.scale.index hi) :
    -62167219200 ≤ (spanAt resolution i).from'
      ∧ (spanAt resolution i).until' ≤ 253402300800 := by
  have hfloor : ∃ k, resolution.period.scale.start k = -62135596800 := by
    cases resolution with
    | daily => exact ⟨12, by decide⟩
    | weekly => exact ⟨12, by decide⟩
    | monthly => exact ⟨1, by decide⟩
  have hceiling : ∃ k, resolution.period.scale.start k = 253370764800 := by
    cases resolution with
    | daily => exact ⟨119988, by decide⟩
    | weekly => exact ⟨119988, by decide⟩
    | monthly => exact ⟨9999, by decide⟩
  obtain ⟨k, hk⟩ := hfloor
  obtain ⟨k', hk'⟩ := hceiling
  have hsecs := Stats.Window.seconds_of_year hin.1 hin.2
  have hsecs' := Stats.Window.seconds_of_year hin'.1 hin'.2
  have hmono := resolution.period.scale.start_strictMono.monotone
  constructor
  · have hle : k ≤ resolution.period.scale.index lo := Scale.start_le_iff.mp (hk ▸ hsecs.1)
    have hopen : resolution.period.scale.start k ≤ (spanAt resolution i).from' :=
      hmono (le_trans hle h)
    omega
  · have hlt : ¬ k' ≤ resolution.period.scale.index hi := by
      rw [← Scale.start_le_iff, hk']
      omega
    have hclose : (spanAt resolution i).until' ≤ resolution.period.scale.start k' :=
      hmono (show i + 1 ≤ k' by omega)
    omega

/-- The rows of consecutive spans are the cells that open between their ends. -/
theorem flatMap_rowsOf (resolution : Resolution) {lo hi : Int} (hle : lo ≤ hi + 1)
    (h : ∀ i, lo ≤ i → i ≤ hi → -62167219200 ≤ (spanAt resolution i).from'
      ∧ (spanAt resolution i).until' ≤ 253402300800) :
    ((ints lo hi).flatMap fun i => rowsOf resolution (spanAt resolution i))
      = (resolution.row.scale.opening (resolution.period.scale.start lo)
          (resolution.period.scale.start (hi + 1))).map (rowAt resolution.row) := by
  induction hn : (hi + 1 - lo).toNat generalizing lo with
  | zero =>
      rw [ints_of_lt (by omega), show hi + 1 = lo by omega, Scale.opening, ints_of_lt (by omega)]
      rfl
  | succ n ih =>
      have hmono := resolution.period.scale.start_strictMono.monotone
      obtain ⟨hbound, hbound'⟩ := h lo (le_refl lo) (by omega)
      rw [ints_cons (by omega), List.flatMap_cons, rowsOf_eq resolution hbound hbound',
        ih (by omega) (fun i hi hi' => h i (by omega) hi') (by omega), ← List.map_append]
      have hfirst : resolution.period.scale.start lo ≤ resolution.period.scale.start (lo + 1) :=
        hmono (by omega)
      have hrest : resolution.period.scale.start (lo + 1)
          ≤ resolution.period.scale.start (hi + 1) := hmono (by omega)
      rw [← Scale.opening_append hfirst hrest]
      rfl

/-- **A BUCKET SPANS ITS CELL**, in the years 0 to 9999 whichever it is. -/
theorem Bucket.span {bucket : Bucket} {resolution : Resolution}
    (h : bucket.fits resolution = true) :
    bucket.window = spanAt resolution bucket.index
      ∧ -62167219200 ≤ (spanAt resolution bucket.index).from'
      ∧ (spanAt resolution bucket.index).until' ≤ 253402300800 := by
  have hmonth := (Period.scale .month).start_strictMono.monotone
  have hlo : (Period.scale .month).start 0 = -62167219200 := by decide
  have hhi : (Period.scale .month).start 120000 = 253402300800 := by decide
  refine ⟨Bucket.window_eq h, ?_⟩
  cases bucket with
  | month y m =>
      have hy := y.spelled
      have hm := m.ofYear
      have hspan : spanAt resolution (Bucket.month y m).index
          = ⟨(Period.scale .month).start (12 * y.get + (m.get - 1)),
            (Period.scale .month).start (12 * y.get + (m.get - 1) + 1)⟩ := by
        cases resolution with
        | daily => rfl
        | weekly => rfl
        | monthly => cases h
      rw [hspan, ← hlo, ← hhi]
      exact ⟨hmonth (by omega), hmonth (by omega)⟩
  | year y =>
      have hy := y.spelled
      have hspan : spanAt resolution (Bucket.year y).index
          = ⟨(Period.scale .month).start (12 * y.get),
            (Period.scale .month).start (12 * (y.get + 1))⟩ := by
        cases resolution with
        | daily => cases h
        | weekly => cases h
        | monthly => rfl
      rw [hspan, ← hlo, ← hhi]
      exact ⟨hmonth (by omega), hmonth (by omega)⟩

variable {coverage : Coverage} {e now : Int}

/-- A listed bucket spans its cell, which lies in the years. -/
theorem Coverage.Reads.span (h : coverage.Reads e now) {resolution : Resolution}
    {bucket : Bucket} (hmem : bucket ∈ coverage.partitions resolution now) :
    bucket.window = spanAt resolution bucket.index
      ∧ -62167219200 ≤ (spanAt resolution bucket.index).from'
      ∧ (spanAt resolution bucket.index).until' ≤ 253402300800 := by
  exact Bucket.span ((Coverage.mem_partitions h).mp hmem).1

/-- **THE ROWS OF A SERIES**: the cells that open from the first span on to the end
    of the last. -/
theorem Coverage.Reads.rows (h : coverage.Reads e now) (resolution : Resolution) :
    ((coverage.partitions resolution now).flatMap fun bucket =>
        rowsOf resolution bucket.window)
      = (resolution.row.scale.opening
          (resolution.period.scale.start (resolution.period.scale.index e))
          (resolution.period.scale.start
            (resolution.period.scale.index (coverage.ceiling now) + 1))).map
          (rowAt resolution.row) := by
  have hspans : ((coverage.partitions resolution now).flatMap fun bucket =>
        rowsOf resolution bucket.window)
      = ((coverage.partitions resolution now).map Bucket.index).flatMap fun i =>
          rowsOf resolution (spanAt resolution i) := by
    rw [List.flatMap_map]
    exact List.flatMap_congr fun bucket hmem => by rw [(h.span hmem).1]
  have hmono : resolution.period.scale.index e
      ≤ resolution.period.scale.index (coverage.ceiling now) := Scale.index_mono h.le_ceiling
  rw [hspans, (Coverage.partitions_index h resolution).1]
  exact flatMap_rowsOf resolution (by omega) fun i hi hi' =>
    spanAt_bounds resolution h.floor h.ceiling hi hi'

end Publish
