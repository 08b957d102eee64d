import Bestiario.Totals

/-! # The whole archive, two ways

    The window `all` runs from the first stored event to the last, half-open:
    it leaves out whatever happened in the very second it ends at.  The monthly
    series has a row for every month the archive reaches into, and leaves out a
    month that opens when the clock stands.  The two count the same orders
    unless one of them was created or completed in that last second. -/

namespace Publish

open Calendar Tiling Groups
open Stats (Metric Value Floats Data Family Order Period dotted)

variable {F : Type} {digest : String → String} {A : Floats F} {data : Data F}
  {coverage : Coverage} {snapshotId : String} {e l now : Int}

/-! ## Adding a column up -/

/-- The number a cell holds; `null` adds nothing. -/
def amount : Json.Value → Int
  | .num text => text.toInt?.getD 0
  | _ => 0

/-- The cells of one column. -/
def SeriesPayload.column (payload : SeriesPayload) (name : String) : List Json.Value :=
  payload.rows.filterMap fun row =>
    row[payload.columns.findIdx fun column => column.name == name]?

/-- A column added up over all the partitions of a series. -/
def Snapshot.seriesTotal (snapshot : Snapshot F) (report : Report) (resolution : Resolution)
    (name : String) : Int :=
  ((snapshot.series report resolution).map fun part =>
    ((part.2.column name).map amount).sum).sum

theorem amount_int (n : Int) : amount (Value.int n) = n := by
  simp [amount, Value.int]

theorem sum_map_flatMap {α β : Type} (xs : List α) (g : α → List β) (f : β → Int) :
    ((xs.flatMap g).map f).sum = (xs.map fun x => ((g x).map f).sum).sum := by
  induction xs with
  | nil => rfl
  | cons x rest ih => simp [ih]

/-- What is plotted of the activity block. -/
theorem catalogue_activity (window : Stats.Window) :
    Stats.catalogueOf A .activity data window now
      = ["orders.created", "orders.completed", "orders.canceled", "orders.completion_rate",
          "orders.abandonment_rate"] := by
  rw [Family.catalogueOf_eq]
  simp only [Family.figures, Family.scope, dotted, List.map_cons, List.map_nil]
  decide +kernel

/-- The counts that have a date. -/
def Counted.date : Counted → Order F → Option Int
  | .created => Order.created
  | .completed => Order.completed
  | .canceled => Order.canceled
  | .openNow => fun _ => none

theorem Counted.counts_eq {counted : Counted} (h : counted ≠ .openNow) (window : Stats.Window)
    (now : Int) (order : Order F) :
    counted.counts window now order = holds window.interval (counted.date order) := by
  cases counted with
  | openNow => exact absurd rfl h
  | created => rfl
  | completed => rfl
  | canceled => rfl

/-- Where a dated count stands in the catalogue. -/
def Counted.place : Counted → Nat
  | .created => 0
  | .completed => 1
  | _ => 2

theorem Counted.catalogue_place {counted : Counted} (h : counted ≠ .openNow)
    (window : Stats.Window) :
    (Stats.catalogueOf A .activity data window now)[counted.place]?
      = some (dotted "orders" counted.word) := by
  rw [catalogue_activity]
  cases counted with
  | openNow => exact absurd rfl h
  | created => rfl
  | completed => rfl
  | canceled => rfl

theorem Counted.column_place {counted : Counted} (h : counted ≠ .openNow)
    (resolution : Resolution) (span : Stats.Window) :
    ((seriesPayload A .activity data resolution span coverage now).columns.findIdx fun column =>
        column.name == counted.word) = counted.place + 1 := by
  have hnames : (seriesPayload A .activity data resolution span coverage now).columns.map
      Column.name
        = ["date", "created", "completed", "canceled", "completion_rate", "abandonment_rate"] := by
    have hcolumn : ∀ name, (column A .activity data span now name).name
        = stripScope "orders." name := fun _ => rfl
    simp only [seriesPayload, catalogue_activity, List.map_cons, List.map_nil, dateColumn, hcolumn]
    decide +kernel
  have hfind := List.findIdx_map
    (seriesPayload A .activity data resolution span coverage now).columns Column.name
    (· == counted.word)
  rw [hnames] at hfind
  refine hfind.symm.trans ?_
  cases counted with
  | openNow => exact absurd rfl h
  | created => rfl
  | completed => rfl
  | canceled => rfl

/-- A dated count is a column of the activity series. -/
theorem column_activity {counted : Counted} (h : counted ≠ .openNow) (resolution : Resolution)
    (span : Stats.Window) :
    (seriesPayload A .activity data resolution span coverage now).column counted.word
      = (rowsOf resolution span).map fun slot =>
          cellOf A data coverage now slot.2 (dotted "orders" counted.word) := by
  rw [SeriesPayload.column, Counted.column_place h, seriesPayload_rows, List.filterMap_map,
    ← List.filterMap_eq_map]
  refine List.filterMap_congr fun slot _ => ?_
  rw [Function.comp_apply, rowOf_succ, Counted.catalogue_place h]
  rfl

/-- A covered cell holds the number of orders that count. -/
theorem amount_cellOf {counted : Counted} (h : counted ≠ .openNow) (slot : Stats.Window) :
    amount (cellOf A data coverage now slot (dotted "orders" counted.word))
      = if coverage.covers slot = true ∧ slot.from' < now then
          ((data.orders.countP fun order => holds slot.interval (counted.date order) : Nat) : Int)
        else 0 := by
  rw [cellOf]
  by_cases hin : coverage.covers slot = true ∧ slot.from' < now
  · have hopen : (!coverage.covers slot || decide (slot.from' ≥ now)) = false := by
      simp [hin.1, hin.2]
    have hplottable : Stats.isPlottable (dotted Family.activity.scope counted.word) = true := by
      cases counted <;> first | exact absurd rfl h | decide +kernel
    have hfigure : (Family.activity.figures data (Stats.completedCodes data slot)).find?
        (fun figure => figure.1 == counted.word) = some (counted.word, true) := by
      cases counted <;> first | exact absurd rfl h | rfl
    obtain ⟨m, hm, hcount⟩ : ∃ m, Stats.measure A data slot now
        (dotted Family.activity.scope counted.word) = some m ∧ m.value.isCount = true :=
      measure_count hplottable hfigure
    -- The figure the cell is made of is the one a window document carries.
    have hfound : ((Stats.activityMetrics A "orders" (Stats.summarise A data.orders slot now)).find?
        fun m => m.name == dotted "orders" counted.word) = some m := by
      have hof := Family.of_dotted .activity counted.word
      rw [Stats.measure, hof] at hm
      exact hm
    obtain ⟨n, hn⟩ := isCount_iff.mp hcount
    have hsame : countOf (Stats.activityMetrics A "orders" (Stats.summarise A data.orders slot now))
        (dotted "orders" counted.word) = _ := counted.of_activity "orders" data.orders slot
    rw [countOf, hfound, Option.elim_some, hn] at hsame
    have hcell : cell A m.value = Value.int n := by
      rw [hn]
      rfl
    rw [hopen, if_neg Bool.false_ne_true, if_pos hin]
    change amount ((Stats.measure A data slot now
      (dotted Family.activity.scope counted.word)).elim _ _) = _
    rw [hm, Option.elim_some, hcell, amount_int]
    refine hsame.trans (congrArg _ (List.countP_congr fun order _ => ?_))
    rw [Counted.counts_eq h]
  · have hnull : (!coverage.covers slot || decide (slot.from' ≥ now)) = true := by
      rw [not_and_or] at hin
      simpa using hin
    rw [if_pos hnull, if_neg hin]
    rfl

/-- **THE TOTAL OF A COLUMN** is counted month by month, over the months the
    archive can speak for. -/
theorem seriesTotal_eq (h : coverage.Reads e now) {counted : Counted}
    (hdated : counted ≠ .openNow) :
    (Snapshot.compute digest A data coverage snapshotId now).seriesTotal .orders .monthly
        counted.word
      = ((ints (12 * (Period.scale .year).index e)
          (12 * ((Period.scale .year).index (coverage.ceiling now) + 1) - 1)).map fun i =>
          if coverage.covers (rowAt .month i).2 = true ∧ (rowAt .month i).2.from' < now then
            ((data.orders.countP fun order =>
              holds (rowAt .month i).2.interval (counted.date order) : Nat) : Int)
          else 0).sum := by
  have hrows := h.rows .monthly
  have hopen : (Period.scale .month).opening
      ((Period.scale .year).start ((Period.scale .year).index e))
      ((Period.scale .year).start ((Period.scale .year).index (coverage.ceiling now) + 1))
      = ints (12 * (Period.scale .year).index e)
          (12 * ((Period.scale .year).index (coverage.ceiling now) + 1) - 1) :=
    Scale.opening_whole (S := Period.scale .month)
  simp only [Resolution.row, Resolution.period, hopen] at hrows
  have hsum := congrArg (fun rows : List (String × Stats.Window) => (rows.map fun slot =>
    amount (cellOf A data coverage now slot.2 (dotted "orders" counted.word))).sum) hrows
  simp only [List.map_map] at hsum
  rw [Snapshot.seriesTotal, Snapshot.series_compute h]
  simp only [familyOf, Option.elim_some, List.map_map]
  rw [sum_map_flatMap] at hsum
  refine Eq.trans ?_ (hsum.trans (congrArg List.sum (List.map_congr_left fun i _ => ?_)))
  · refine congrArg List.sum (List.map_congr_left fun bucket _ => ?_)
    simp only [Function.comp_apply, column_activity hdated, List.map_map]
    rfl
  · exact amount_cellOf hdated _

/-! ## The months of the archive -/

/-- The archive ends in the first second of a month, and the clock stands there. -/
def AtMonthStart (l now : Int) : Prop :=
  now = l ∧ (Period.scale .month).start ((Period.scale .month).index l) = l

instance (l now : Int) : Decidable (AtMonthStart l now) := inferInstanceAs (Decidable (_ ∧ _))

/-- The dates the rows of the months count: all of them, but for the last second
    when its month has only just opened. -/
def rowDate (l now : Int) (date : Order F → Option Int) (order : Order F) : Option Int :=
  if AtMonthStart l now then (date order).filter fun t => decide (t < l) else date order

theorem rowDate_eq_some {date : Order F → Option Int} {order : Order F} {t : Int} :
    rowDate l now date order = some t
      ↔ date order = some t ∧ (AtMonthStart l now → t < l) := by
  rw [rowDate]
  split
  · rename_i hstart
    simp [hstart]
  · rename_i hstart
    simp [hstart]

theorem holds_iff {w : Interval} {t : Option Int} :
    holds w t = true ↔ ∃ s, t = some s ∧ Inside s w := by
  cases t with
  | none => simp [holds]
  | some s => simp [holds_some]

/-- A month's row counts the dates in it, whether it is null or not. -/
theorem masked_month {orders : List (Order F)} {date : Order F → Option Int}
    (hdates : ∀ order ∈ orders, ∀ t, date order = some t → e ≤ t ∧ t ≤ l) (hclock : l ≤ now)
    (i : Int) :
    (if (Coverage.between e l).covers (rowAt .month i).2 = true
        ∧ (rowAt .month i).2.from' < now then
      ((orders.countP fun order => holds (rowAt .month i).2.interval (date order) : Nat) : Int)
      else 0)
      = (orders.countP fun order =>
          holds (rowAt .month i).2.interval (rowDate l now date order) : Nat) := by
  have hcovers : (Coverage.between e l).covers (rowAt .month i).2 = true
      ↔ e < (Period.scale .month).start (i + 1) ∧ (Period.scale .month).start i ≤ l := by
    rw [Coverage.covers_iff rfl]
    exact and_congr_right fun _ => ⟨fun h => h l rfl, fun h m hm => Option.some.inj hm ▸ h⟩
  by_cases hmask : (Coverage.between e l).covers (rowAt .month i).2 = true
      ∧ (rowAt .month i).2.from' < now
  · rw [if_pos hmask]
    refine congrArg _ (List.countP_congr fun order _ => ?_)
    rw [holds_iff, holds_iff]
    constructor
    · rintro ⟨t, ht, hin⟩
      refine ⟨t, rowDate_eq_some.mpr ⟨ht, ?_⟩, hin⟩
      -- A month that opens before the last second's month ends before it opens.
      rintro ⟨hnow, hstart⟩
      have hlt : (Period.scale .month).start i
          < (Period.scale .month).start ((Period.scale .month).index l) := by
        rw [hstart, ← hnow]
        exact hmask.2
      have hle := (Period.scale .month).start_strictMono.monotone
        (Int.add_one_le_of_lt ((Period.scale .month).start_strictMono.lt_iff_lt.mp hlt))
      exact lt_of_lt_of_le hin.2 (le_of_le_of_eq hle hstart)
    · rintro ⟨t, ht, hin⟩
      exact ⟨t, (rowDate_eq_some.mp ht).1, hin⟩
  · rw [if_neg hmask]
    refine (congrArg Nat.cast (List.countP_eq_zero.mpr fun order horder hholds => hmask ?_)).symm
    obtain ⟨t, ht, hlo, hhi⟩ := holds_iff.mp hholds
    obtain ⟨hdate, hbefore⟩ := rowDate_eq_some.mp ht
    obtain ⟨hfloor, hceiling⟩ := hdates order horder t hdate
    have hopen : (Period.scale .month).start i ≤ t := hlo
    refine ⟨hcovers.mpr ⟨lt_of_le_of_lt hfloor hhi, le_trans hopen hceiling⟩, ?_⟩
    show (Period.scale .month).start i < now
    by_contra hpast
    -- The month opens at the clock, which is where the archive ends.
    have hsame : (Period.scale .month).start i = l ∧ now = l ∧ t = l := by omega
    have hindex : (Period.scale .month).index l = i := by
      rw [← hsame.1, Scale.index_start]
    exact absurd (hbefore ⟨hsame.2.1, by rw [hindex, hsame.1]⟩) (by omega)

/-- **THE SERIES COUNTS THE DATES OF ALL ITS MONTHS.** -/
theorem seriesTotal_between (h : (Coverage.between e l).Reads e now) (hclock : l ≤ now)
    {counted : Counted} (hdated : counted ≠ .openNow)
    (hdates : ∀ order ∈ data.orders, ∀ t, counted.date order = some t → e ≤ t ∧ t ≤ l) :
    (Snapshot.compute digest A data (.between e l) snapshotId now).seriesTotal .orders .monthly
        counted.word
      = (data.orders.countP fun order =>
          holds (e, l + 1) (rowDate l now counted.date order) : Nat) := by
  have hceiling : (Coverage.between e l).ceiling now = l := min_eq_left hclock
  have hle : e ≤ l := hceiling ▸ h.le_ceiling
  have hyears : 12 * (Period.scale .year).index e < 12 * ((Period.scale .year).index l + 1) := by
    have hmono : (Period.scale .year).index e ≤ (Period.scale .year).index l :=
      Scale.index_mono hle
    omega
  have htiles := (Scale.tiles_whole (S := Period.scale .month) hyears).sum_countP data.orders
    (rowDate l now counted.date)
  rw [List.map_map] at htiles
  rw [seriesTotal_eq h hdated, hceiling, List.map_congr_left fun i _ =>
    masked_month hdates hclock i]
  have hcast : ((ints (12 * (Period.scale .year).index e)
      (12 * ((Period.scale .year).index l + 1) - 1)).map fun i =>
        ((data.orders.countP fun order => holds (rowAt .month i).2.interval
          (rowDate l now counted.date order) : Nat) : Int)).sum
      = (((ints (12 * (Period.scale .year).index e)
          (12 * ((Period.scale .year).index l + 1) - 1)).map fun i =>
        data.orders.countP fun order => holds (rowAt .month i).2.interval
          (rowDate l now counted.date order)).sum : Nat) := by
    rw [Nat.cast_list_sum, List.map_map]
    rfl
  rw [hcast]
  refine congrArg Nat.cast (Eq.trans htiles (List.countP_congr fun order horder => ?_))
  rw [holds_iff, holds_iff]
  refine exists_congr fun t => and_congr_right fun ht => ?_
  obtain ⟨hfloor, hlast⟩ := hdates order horder t (rowDate_eq_some.mp ht).1
  have hopen : (Period.scale .year).start ((Period.scale .year).index e) ≤ e :=
    (Period.scale .year).start_index e
  have hend : l < (Period.scale .year).start ((Period.scale .year).index l + 1) :=
    (Period.scale .year).lt_start l
  exact ⟨fun _ => ⟨hfloor, by omega⟩, fun _ => ⟨le_trans hopen hfloor, lt_of_le_of_lt hlast hend⟩⟩

/-! ## The window and the series -/

theorem figure_all (h : (Coverage.between e l).Reads e now) (hclock : l ≤ now)
    {counted : Counted} (hdated : counted ≠ .openNow) :
    (Snapshot.compute digest A data (.between e l) snapshotId now).figure
        (.window .orders .all none) (dotted "orders" counted.word)
      = (data.orders.countP fun order => holds (e, l) (counted.date order) : Nat) := by
  have hle : e ≤ l := (h.latest l rfl).1
  have hwindow : windowOf .all (.between e l) now = ⟨e, l⟩ := by
    show (⟨min e (min l now), min l now⟩ : Stats.Window) = ⟨e, l⟩
    rw [min_eq_left hclock, min_eq_left hle]
  rw [Snapshot.figure_network, hwindow]
  exact congrArg Nat.cast (List.countP_congr fun order _ => by rw [Counted.counts_eq hdated]; rfl)

/-- The two agree on a count exactly when nothing is dated in the last second, or
    its month is left out of the series too. -/
theorem figure_eq_series_iff (h : (Coverage.between e l).Reads e now) (hclock : l ≤ now)
    {counted : Counted} (hdated : counted ≠ .openNow)
    (hdates : ∀ order ∈ data.orders, ∀ t, counted.date order = some t → e ≤ t ∧ t ≤ l)
    (digest : String → String) (A : Floats F) (snapshotId : String) :
    (Snapshot.compute digest A data (.between e l) snapshotId now).figure
        (.window .orders .all none) (dotted "orders" counted.word)
      = (Snapshot.compute digest A data (.between e l) snapshotId now).seriesTotal .orders
          .monthly counted.word
      ↔ AtMonthStart l now ∨ ∀ order ∈ data.orders, counted.date order ≠ some l := by
  have hle : e ≤ l := (h.latest l rfl).1
  rw [figure_all h hclock hdated, seriesTotal_between h hclock hdated hdates, Nat.cast_inj]
  by_cases hstart : AtMonthStart l now
  · refine iff_of_true (List.countP_congr fun order _ => ?_) (.inl hstart)
    rw [holds_iff, holds_iff]
    constructor
    · rintro ⟨t, ht, hlo, hhi⟩
      exact ⟨t, rowDate_eq_some.mpr ⟨ht, fun _ => hhi⟩, hlo, lt_trans hhi (by simp)⟩
    · rintro ⟨t, ht, hlo, -⟩
      obtain ⟨hdate, hbefore⟩ := rowDate_eq_some.mp ht
      exact ⟨t, hdate, hlo, hbefore hstart⟩
  · have hall : ∀ order : Order F, rowDate l now counted.date order = counted.date order :=
      fun order => if_neg hstart
    have hsplit := countP_split data.orders counted.date hle (show l ≤ l + 1 by omega)
    simp only [hall, hstart, false_or]
    rw [hsplit]
    have hzero : (data.orders.countP fun order => holds (l, l + 1) (counted.date order)) = 0
        ↔ ∀ order ∈ data.orders, counted.date order ≠ some l := by
      rw [List.countP_eq_zero]
      refine forall₂_congr fun order _ => not_congr ?_
      rw [holds_iff]
      constructor
      · rintro ⟨t, ht, hlo, hhi⟩
        have heq : t = l := by
          simp only at hlo hhi
          omega
        rw [ht, heq]
      · intro hlast
        exact ⟨l, hlast, le_refl l, by simp⟩
    rw [← hzero]
    omega

/-- **THE WINDOW `all` AND THE MONTHLY SERIES COUNT THE SAME ORDERS EXACTLY WHEN** no
    order was created or completed in the second of the archive's last event, or
    that second opens a month and the clock stands at it. -/
theorem all_eq_series_iff (h : (Coverage.between e l).Reads e now) (hclock : l ≤ now)
    (hcreated : ∀ order ∈ data.orders, e ≤ order.createdAt ∧ order.createdAt ≤ l)
    (hsettled : ∀ order ∈ data.orders, order.status = .success →
      ∀ t, order.successAt = some t → e ≤ t ∧ t ≤ l)
    (digest : String → String) (A : Floats F) (snapshotId : String) :
    (∀ counted ∈ [Counted.created, .completed],
        (Snapshot.compute digest A data (.between e l) snapshotId now).figure
            (.window .orders .all none) (dotted "orders" counted.word)
          = (Snapshot.compute digest A data (.between e l) snapshotId now).seriesTotal .orders
              .monthly counted.word)
      ↔ (∀ order ∈ data.orders, order.createdAt ≠ l
            ∧ ¬ (order.status = .success ∧ order.successAt = some l))
        ∨ (now = l ∧ Bucket.first (DateTime.ofUnix l).date.year (DateTime.ofUnix l).date.month
            = l) := by
  obtain ⟨-, hyear, hyear'⟩ := h.latest l rfl
  have hbounds := Timestamp.ofUnix_bounds l
  have hstart : (now = l ∧ Bucket.first (DateTime.ofUnix l).date.year
      (DateTime.ofUnix l).date.month = l) ↔ AtMonthStart l now := by
    rw [Bucket.first_month (by omega) (by omega)]
    exact Iff.rfl
  have hdates : ∀ order ∈ data.orders, ∀ t, order.completed = some t → e ≤ t ∧ t ≤ l := by
    intro order horder t ht
    rw [Order.completed] at ht
    split at ht
    · rename_i hstatus
      exact hsettled order horder hstatus t ht
    · cases ht
  have hcompleted : ∀ order : Order F, order.completed = some l
      ↔ order.status = .success ∧ order.successAt = some l := by
    intro order
    rw [Order.completed]
    split
    · rename_i hstatus
      simp [hstatus]
    · rename_i hstatus
      simp [hstatus]
  -- One figure at a time: they differ by the orders dated at the last instant.
  have hfirst := figure_eq_series_iff h hclock (show Counted.created ≠ .openNow by decide)
    (fun order horder t ht => Option.some.inj ht ▸ hcreated order horder) digest A snapshotId
  have hsecond := figure_eq_series_iff h hclock (show Counted.completed ≠ .openNow by decide)
    hdates digest A snapshotId
  simp only [List.mem_cons, List.not_mem_nil, or_false, forall_eq_or_imp, forall_eq]
  rw [hfirst, hsecond, hstart, ← or_and_left, or_comm]
  refine or_congr_left ?_
  rw [← forall₂_and]
  refine forall₂_congr fun order _ => and_congr ?_ (not_congr (hcompleted order))
  exact not_congr ⟨fun heq => Option.some.inj heq, fun heq => congrArg some heq⟩

theorem oneOrder_same_twice :
    (∀ order ∈ oneOrder.orders, order.createdAt ≠ 1770076800
        ∧ ¬ (order.status = .success ∧ order.successAt = some 1770076800))
      ∧ ∀ counted ∈ [Counted.created, .completed],
        (Snapshot.compute id .whole oneOrder threeDays "1" 1772323200).figure
            (.window .orders .all none) (dotted "orders" counted.word)
          = (Snapshot.compute id .whole oneOrder threeDays "1" 1772323200).seriesTotal .orders
              .monthly counted.word :=
  ⟨by decide,
    (all_eq_series_iff threeDays_reads (by decide) (by decide) (by decide) id .whole "1").mpr
      (.inl (by decide))⟩

/-- One order, created and settled in the second of the last event. -/
def lastOrder : Data Int := { noData with orders := [settledOrder "ARS" 1770076800] }

theorem lastOrder_only_in_series :
    (Snapshot.compute id .whole lastOrder threeDays "1" 1772323200).figure
        (.window .orders .all none) "orders.created"
      ≠ (Snapshot.compute id .whole lastOrder threeDays "1" 1772323200).seriesTotal .orders
          .monthly "created" := by
  have hdates : ∀ order ∈ lastOrder.orders, ∀ t, Counted.created.date order = some t →
      1769904000 ≤ t ∧ t ≤ 1770076800 := by
    intro order horder t ht
    obtain rfl := List.mem_singleton.mp horder
    cases ht
    decide
  intro heq
  rcases (figure_eq_series_iff threeDays_reads (by decide)
    (show Counted.created ≠ .openNow by decide) hdates id .whole "1").mp heq with hstart | hnone
  · exact absurd hstart (by decide)
  · exact hnone _ List.mem_cons_self rfl

end Publish
