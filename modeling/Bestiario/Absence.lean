import Bestiario.Rows

/-! # Absence

    `null` is absence and never zero.  A row outside what the archive holds, or
    not yet begun, is `null` in every column; a row inside has the counts its
    family always has, so its columns are never all `null`. -/

namespace Publish

open Calendar Tiling
open Stats (Metric Value Floats Data Family dotted Period)

variable {F : Type} {digest : String → String} {A : Floats F} {data : Data F}
  {coverage : Coverage} {snapshotId : String} {now : Int}

/-! ## Counts -/

/-- A cell that holds a number of things. -/
def IsCount (value : Json.Value) : Prop := ∃ n : Int, value = Value.int n

theorem isCount_iff {value : Value F} : value.isCount = true ↔ ∃ n, value = .count n := by
  cases value <;> simp [Value.isCount]

/-- Only counts declare the unit `count`. -/
theorem unitOf_eq_count {value : Value F} : unitOf A value = "count" ↔ value.isCount = true := by
  cases value with
  | count n => exact ⟨fun _ => rfl, fun _ => rfl⟩
  | ratio x =>
      simp only [unitOf, Value.normalised, Value.isCount]
      split <;> simp [Value.unit]
  | fiat x code =>
      simp only [unitOf, Value.normalised, Value.isCount]
      split <;> simp [Value.unit]
  | sats n => simp [unitOf, Value.normalised, Value.unit, Value.isCount]
  | seconds n => simp [unitOf, Value.normalised, Value.unit, Value.isCount]
  | text s => simp [unitOf, Value.normalised, Value.unit, Value.isCount]
  | missing => simp [unitOf, Value.normalised, Value.unit, Value.isCount]

theorem cell_count {value : Value F} (h : value.isCount = true) : IsCount (cell A value) := by
  obtain ⟨n, rfl⟩ := isCount_iff.mp h
  exact ⟨n, rfl⟩

/-- Whether the figure of a name is there and is a count. -/
theorem measure_count {window : Stats.Window} {family : Family} {name : String}
    (h : Stats.isPlottable (dotted family.scope name) = true)
    (hfigure : (family.figures data (Stats.completedCodes data window)).find?
      (fun figure => figure.1 == name) = some (name, true)) :
    ∃ m, Stats.measure A data window now (dotted family.scope name) = some m
      ∧ m.value.isCount = true := by
  have hshape : (Stats.measure A data window now (dotted family.scope name)).map Metric.shape
      = _ := family.shape_measure h
  rw [hfigure, Option.map_some] at hshape
  obtain ⟨m, hm, heq⟩ := Option.map_eq_some_iff.mp hshape
  exact ⟨m, hm, congrArg Prod.snd heq⟩

/-! ## A row in full -/

/-- The key of a row and its cells. -/
def rowOf (A : Floats F) (data : Data F) (family : Family) (coverage : Coverage) (now : Int)
    (span : Stats.Window) (slot : String × Stats.Window) : List Json.Value :=
  .str slot.1 :: (Stats.catalogueOf A family data span now).map
    (cellOf A data coverage now slot.2)

theorem seriesPayload_rows (family : Family) (resolution : Resolution) (span : Stats.Window) :
    (seriesPayload A family data resolution span coverage now).rows
      = (rowsOf resolution span).map (rowOf A data family coverage now span) := rfl

/-- Every row has a cell for every column. -/
theorem length_rowOf (family : Family) (resolution : Resolution) (span : Stats.Window)
    (slot : String × Stats.Window) :
    (rowOf A data family coverage now span slot).length
      = (seriesPayload A family data resolution span coverage now).columns.length := by
  simp [rowOf, seriesPayload]

/-- Past the key, columns and cells follow the catalogue. -/
theorem columns_succ (family : Family) (resolution : Resolution) (span : Stats.Window) (k : Nat) :
    (seriesPayload A family data resolution span coverage now).columns[k + 1]?
      = (Stats.catalogueOf A family data span now)[k]?.map (column A family data span now) := by
  rw [← List.getElem?_map]
  rfl

theorem rowOf_succ (family : Family) (span : Stats.Window) (slot : String × Stats.Window)
    (k : Nat) :
    (rowOf A data family coverage now span slot)[k + 1]?
      = (Stats.catalogueOf A family data span now)[k]?.map
          (cellOf A data coverage now slot.2) := by
  rw [← List.getElem?_map]
  rfl

theorem mem_catalogueOf {family : Family} {window : Stats.Window} {name : String} :
    name ∈ Stats.catalogueOf A family data window now
      ↔ Stats.isPlottable name = true
        ∧ ∃ figure ∈ family.figures data (Stats.completedCodes data window),
            name = dotted family.scope figure.1 := by
  rw [Family.catalogueOf_eq, List.mem_filter, List.mem_map, and_comm]
  simp only [eq_comm]

/-- **A ROW IS ALL NULL EXACTLY WHEN THE ARCHIVE CANNOT SPEAK FOR IT YET**: a
    covered row that has begun has the count its family always has. -/
theorem rowOf_null_iff (family : Family) (span : Stats.Window)
    (slot : String × Stats.Window) :
    (∀ cell ∈ (rowOf A data family coverage now span slot).tail, cell = .null)
      ↔ coverage.covers slot.2 = false ∨ now ≤ slot.2.from' := by
  rw [rowOf, List.tail_cons]
  constructor
  · intro hnull
    by_contra hcovered
    push Not at hcovered
    obtain ⟨hcovers, hbegun⟩ := hcovered
    obtain ⟨m, hm, hcount⟩ : ∃ m, Stats.measure A data slot.2 now
        (dotted family.scope family.anchor) = some m ∧ m.value.isCount = true :=
      measure_count family.anchor_plottable (family.find_anchor _)
    have hmem : dotted family.scope family.anchor
        ∈ Stats.catalogueOf A family data span now :=
      mem_catalogueOf.mpr ⟨family.anchor_plottable, _,
        List.mem_of_find?_eq_some (family.find_anchor _), rfl⟩
    have hcell := hnull _ (List.mem_map_of_mem hmem)
    have hin : coverage.covers slot.2 = true := by simpa using hcovers
    obtain ⟨n, hn⟩ := cell_count (A := A) hcount
    simp [cellOf, hin, not_le.mpr hbegun, hm, hn, Value.int] at hcell
  · intro houtside cell hcell
    obtain ⟨name, -, rfl⟩ := List.mem_map.mp hcell
    have hnull : (!coverage.covers slot.2 || decide (slot.2.from' ≥ now)) = true := by
      simpa using houtside
    rw [cellOf, if_pos hnull]

/-! ## The partitions of a snapshot -/

/-- Days and months are the cells the span meets. -/
theorem rowsOf_whole {resolution : Resolution} (hweekly : resolution ≠ .weekly) {i : Int}
    (hlo : -62167219200 ≤ (spanAt resolution i).from')
    (hhi : (spanAt resolution i).until' ≤ 253402300800) :
    rowsOf resolution (spanAt resolution i)
      = (resolution.row.scale.cells (spanAt resolution i).from'
          (spanAt resolution i).until').map (rowAt resolution.row) := by
  rw [rowsOf_eq resolution hlo hhi]
  cases resolution with
  | daily =>
      show ((Period.scale .day).opening ((Period.scale .day).start (monthStart i))
        ((Period.scale .day).start (monthStart (i + 1)))).map _ = _
      rw [Scale.opening_whole, ← Scale.cells_whole]
      rfl
  | weekly => exact absurd rfl hweekly
  | monthly =>
      show ((Period.scale .month).opening ((Period.scale .month).start (12 * i))
        ((Period.scale .month).start (12 * (i + 1)))).map _ = _
      rw [Scale.opening_whole, ← Scale.cells_whole]
      rfl

/-- The spans of the partitions follow one another. -/
theorem partitions_ascending {e : Int} (h : coverage.Reads e now) (resolution : Resolution) :
    (coverage.partitions resolution now).Pairwise fun a b =>
      a.window.from' < b.window.from' := by
  obtain ⟨hindex, hfits⟩ := Coverage.partitions_index h resolution
  have hordered : (coverage.partitions resolution now).Pairwise fun a b => a.index < b.index := by
    rw [← List.pairwise_map (f := Bucket.index) (R := (· < ·)), hindex]
    exact ints_pairwise _ _
  refine hordered.imp_of_mem fun ha hb hlt => ?_
  rw [Bucket.window_eq (hfits _ ha), Bucket.window_eq (hfits _ hb)]
  exact resolution.period.scale.start_strictMono hlt

/-- **THE PARTITIONS AND THEIR ROWS.**  The buckets listed are, in order, those
    whose span meets what the archive holds before the clock; each family
    publishes a document for exactly these; a daily or monthly partition has a
    row for each day or month; every row fills every column; and it is all null
    exactly when the archive does not hold it or it has not begun. -/
theorem partitions_and_absence {e : Int} (h : coverage.Reads e now) (digest : String → String)
    (A : Floats F) (data : Data F) (snapshotId : String) (resolution : Resolution) :
    (coverage.partitions resolution now).Pairwise (fun a b => a.window.from' < b.window.from')
      ∧ (∀ bucket, bucket ∈ coverage.partitions resolution now
          ↔ bucket.fits resolution = true ∧ bucket.window.from' ≤ coverage.ceiling now
            ∧ e < bucket.window.until')
      ∧ ∀ report,
        ((Snapshot.compute digest A data coverage snapshotId now).series report
            resolution).map Prod.fst
          = (if (familyOf report).isSome then coverage.partitions resolution now else [])
        ∧ (∀ document ∈ (Snapshot.compute digest A data coverage snapshotId now).documents,
            ∀ slot scope, document.address = .series report slot scope → scope = none)
        ∧ ∀ part ∈ (Snapshot.compute digest A data coverage snapshotId now).series report
            resolution,
          (resolution ≠ .weekly → rowsOf resolution part.1.window
            = (resolution.row.scale.cells part.1.window.from' part.1.window.until').map
                (rowAt resolution.row))
          ∧ part.2.rows.length = (rowsOf resolution part.1.window).length
          ∧ ∀ (i : Nat) (row : List Json.Value) (slot : String × Stats.Window),
              part.2.rows[i]? = some row → (rowsOf resolution part.1.window)[i]? = some slot →
              row.head? = some (.str slot.1) ∧ row.length = part.2.columns.length
              ∧ ((∀ cell ∈ row.tail, cell = .null)
                ↔ slot.2.until' ≤ e ∨ (∃ l, coverage.latest = some l ∧ l < slot.2.from')
                  ∨ now ≤ slot.2.from') := by
  refine ⟨partitions_ascending h resolution, fun bucket => ?_, fun report => ⟨?_, ?_, ?_⟩⟩
  · constructor
    · intro hmem
      have hfits := ((Coverage.mem_partitions h).mp hmem).1
      exact ⟨hfits, (Coverage.mem_partitions_iff_meets h hfits).mp hmem⟩
    · rintro ⟨hfits, hmeets⟩
      exact (Coverage.mem_partitions_iff_meets h hfits).mpr hmeets
  · rw [Snapshot.series_compute h]
    cases familyOf report with
    | none => rfl
    | some family =>
        rw [Option.elim_some, List.map_map]
        exact List.map_id _
  · intro document hmem slot scope haddress
    rcases Snapshot.mem_compute.mp hmem with ⟨_, _, rfl⟩ | ⟨_, _, _, -, -, -, rfl⟩ |
      ⟨_, -, _, _, -, rfl⟩
    · cases haddress
    · cases haddress
      rfl
    · cases haddress
  · intro part hpart
    -- A partition is one bucket's payload, and each of its rows a row of the span.
    rw [Snapshot.series_compute h] at hpart
    cases hfamily : familyOf report with
    | none =>
        rw [hfamily] at hpart
        cases hpart
    | some family =>
        rw [hfamily, Option.elim_some, List.mem_map] at hpart
        obtain ⟨bucket, hbucket, rfl⟩ := hpart
        obtain ⟨hspan, hlo, hhi⟩ := h.span hbucket
        simp only [seriesPayload_rows, List.length_map, List.getElem?_map,
          Option.map_eq_some_iff]
        refine ⟨fun hweekly => ?_, trivial, ?_⟩
        · rw [hspan]
          exact rowsOf_whole hweekly hlo hhi
        · rintro i row slot ⟨slot', hslot', rfl⟩ hslot
          obtain rfl : slot' = slot := Option.some.inj (hslot'.symm.trans hslot)
          refine ⟨rfl, length_rowOf family resolution bucket.window slot', ?_⟩
          rw [rowOf_null_iff, ← Bool.not_eq_true, Coverage.covers_iff h.earliest, not_and_or,
            not_lt, or_assoc]
          push Not
          rfl

/-- An archive of three days of February, read in March. -/
def threeDays : Coverage := .between 1769904000 1770076800

theorem threeDays_reads : threeDays.Reads 1769904000 1772323200 where
  earliest := rfl
  latest l hl := by
    cases hl
    decide
  started := by decide
  floor := by decide
  clock := by decide

/-- Nothing but its extent is known of it. -/
def noData : Data Int where
  orders := []
  fees := ⟨[], []⟩
  disputes := ⟨[], []⟩
  profiles := []
  devFeePct := none
  priced := none

theorem threeDays_partitions :
    ((Snapshot.compute id .whole noData threeDays "1" 1772323200).series .orders .daily).map
        Prod.fst = threeDays.partitions .daily 1772323200
      ∧ (threeDays.partitions .daily 1772323200).map Bucket.toString = ["2026-02"] :=
  ⟨((partitions_and_absence threeDays_reads id .whole noData "1" .daily).2.2 .orders).1,
    by decide +kernel⟩

/-! ## Real zeros -/

/-- Every covered row that has begun has a number under every column that counts. -/
def HasZeros (coverage : Coverage) (now : Int) (resolution : Resolution) (span : Stats.Window)
    (payload : SeriesPayload) : Prop :=
  ∀ (i : Nat) (row : List Json.Value) (slot : String × Stats.Window),
    payload.rows[i]? = some row → (rowsOf resolution span)[i]? = some slot →
    coverage.covers slot.2 = true → slot.2.from' < now →
    ∀ (j : Nat) (column : Column) (cell : Json.Value), payload.columns[j]? = some column →
      column.unit = "count" → row[j]? = some cell → IsCount cell

/-- Every currency that completed an order in the span completed one in each of
    its rows the archive can speak for. -/
def EveryRowTraded (data : Data F) (coverage : Coverage) (now : Int) (resolution : Resolution)
    (span : Stats.Window) : Prop :=
  ∀ slot ∈ rowsOf resolution span, coverage.covers slot.2 = true → slot.2.from' < now →
    ∀ code ∈ Stats.completedCodes data span, Stats.plottedCode code = true →
      code ∈ Stats.completedCodes data slot.2

/-- The figure behind a column that counts. -/
theorem find_of_unit {family : Family} {span : Stats.Window} {name : String}
    (h : Stats.isPlottable (dotted family.scope name) = true)
    (hunit : (column A family data span now (dotted family.scope name)).unit = "count") :
    (family.figures data (Stats.completedCodes data span)).find? (fun figure =>
      figure.1 == name) = some (name, true) := by
  have hshape : (Stats.measure A data span now (dotted family.scope name)).map Metric.shape
      = _ := family.shape_measure h
  rw [column] at hunit
  cases hm : Stats.measure A data span now (dotted family.scope name) with
  | none => simp [hm] at hunit
  | some m =>
      rw [hm] at hunit hshape
      have hcount : m.value.isCount = true := unitOf_eq_count.mp hunit
      obtain ⟨figure, hfind, heq⟩ := Option.map_eq_some_iff.mp hshape.symm
      have hname : figure.1 = name :=
        eq_of_beq (List.find?_some (p := fun figure : String × Bool => figure.1 == name) hfind)
      have hflag : figure.2 = true := (congrArg Prod.snd heq).trans hcount
      rw [hfind, ← hname, ← hflag]

/-- A figure of the span that counts is found in a row that has its currencies. -/
theorem find_in_row {family : Family} {span slot : Stats.Window}
    (h : family ≠ .volume ∨ ∀ code ∈ Stats.completedCodes data span,
      Stats.plottedCode code = true → code ∈ Stats.completedCodes data slot)
    {name : String} (hname : Stats.isPlottable (dotted family.scope name) = true)
    (hfound : (family.figures data (Stats.completedCodes data span)).find? (fun figure =>
      figure.1 == name) = some (name, true)) :
    (family.figures data (Stats.completedCodes data slot)).find? (fun figure =>
      figure.1 == name) = some (name, true) := by
  by_cases hvolume : family = .volume
  · subst hvolume
    have hcodes := h.resolve_left fun hne => hne rfl
    rw [Stats.find_volume_mono data hcodes hname (by rw [hfound]; simp), hfound]
  · rw [Family.figures_of_ne_volume hvolume _ (Stats.completedCodes data span), hfound]

theorem hasZeros_of_traded {family : Family} {resolution : Resolution} {span : Stats.Window}
    (h : family ≠ .volume ∨ EveryRowTraded data coverage now resolution span) :
    HasZeros coverage now resolution span
      (seriesPayload A family data resolution span coverage now) := by
  intro i row slot hrow hslot hcovers hbegun j col value hcol hunit hcell
  rw [seriesPayload_rows, List.getElem?_map, hslot, Option.map_some] at hrow
  obtain rfl := Option.some.inj hrow
  cases j with
  | zero =>
      obtain rfl := Option.some.inj hcol
      exact absurd hunit (by decide)
  | succ k =>
      rw [columns_succ, Option.map_eq_some_iff] at hcol
      rw [rowOf_succ, Option.map_eq_some_iff] at hcell
      obtain ⟨name, hname, rfl⟩ := hcol
      obtain ⟨name', hname', rfl⟩ := hcell
      obtain rfl := Option.some.inj (hname.symm.trans hname')
      obtain ⟨hplottable, figure, -, rfl⟩ := mem_catalogueOf.mp (List.mem_of_getElem? hname)
      have hrow : family ≠ .volume ∨ ∀ code ∈ Stats.completedCodes data span,
          Stats.plottedCode code = true → code ∈ Stats.completedCodes data slot.2 :=
        h.imp_right fun h => h slot (List.mem_of_getElem? hslot) hcovers hbegun
      obtain ⟨m, hm, hcount⟩ : ∃ m, Stats.measure A data slot.2 now
          (dotted family.scope figure.1) = some m ∧ m.value.isCount = true :=
        measure_count hplottable
          (find_in_row hrow hplottable (find_of_unit hplottable hunit))
      have hopen : (!coverage.covers slot.2 || decide (slot.2.from' ≥ now)) = false := by
        simp [hcovers, hbegun]
      rw [cellOf, hopen, if_neg Bool.false_ne_true, hm]
      exact cell_count hcount

/-- **A CURRENCY MISSING FROM A ROW IS NULL THERE**, and the column says `count`. -/
theorem traded_of_hasZeros {resolution : Resolution} {span : Stats.Window}
    (h : HasZeros coverage now resolution span
      (seriesPayload A .volume data resolution span coverage now)) :
    EveryRowTraded data coverage now resolution span := by
  intro slot hslot hcovers hbegun code hcode hplotted
  by_contra hmissing
  have hword : (("completed", true) : String × Bool) ∈ Stats.fiatWords := by decide
  have hplottable : Stats.isPlottable (dotted Family.volume.scope
      (Stats.fiatName code "completed")) = true :=
    (Stats.isPlottable_fiat hword code).trans hplotted
  have hfound : (Family.volume.figures data (Stats.completedCodes data span)).find? (fun figure =>
      figure.1 == Stats.fiatName code "completed")
      = some (Stats.fiatName code "completed", true) :=
    (Stats.find_volume_fiat data hword code _).trans (if_pos hcode)
  have hname : dotted Family.volume.scope (Stats.fiatName code "completed")
      ∈ Stats.catalogueOf A .volume data span now :=
    mem_catalogueOf.mpr ⟨hplottable, _, List.mem_of_find?_eq_some hfound, rfl⟩
  obtain ⟨i, hi⟩ := List.mem_iff_getElem?.mp hslot
  obtain ⟨k, hk⟩ := List.mem_iff_getElem?.mp hname
  have hsample : ∃ m, Stats.measure A data span now (dotted Family.volume.scope
      (Stats.fiatName code "completed")) = some m ∧ m.value.isCount = true :=
    measure_count hplottable hfound
  obtain ⟨m, hm, hcount⟩ := hsample
  have hunit : (column A .volume data span now (dotted Family.volume.scope
      (Stats.fiatName code "completed"))).unit = "count" := by
    rw [column, hm]
    exact unitOf_eq_count.mpr hcount
  have hnone : Stats.measure A data slot.2 now (dotted Family.volume.scope
      (Stats.fiatName code "completed")) = none := by
    have hshape : (Stats.measure A data slot.2 now (dotted Family.volume.scope
        (Stats.fiatName code "completed"))).map Metric.shape = _ :=
      Family.volume.shape_measure hplottable
    rw [Stats.find_volume_fiat data hword, if_neg hmissing, Option.map_none,
      Option.map_eq_none_iff] at hshape
    exact hshape
  have hrow : (seriesPayload A .volume data resolution span coverage now).rows[i]?
      = some (rowOf A data .volume coverage now span slot) := by
    rw [seriesPayload_rows, List.getElem?_map, hi, Option.map_some]
  have hcell := h i _ slot hrow hi hcovers hbegun (k + 1) _ _
    ((columns_succ .volume resolution span k).trans (congrArg (Option.map _) hk)) hunit
    ((rowOf_succ .volume span slot k).trans (congrArg (Option.map _) hk))
  have hopen : (!coverage.covers slot.2 || decide (slot.2.from' ≥ now)) = false := by
    simp [hcovers, hbegun]
  rw [cellOf, hopen, if_neg Bool.false_ne_true, hnone] at hcell
  obtain ⟨n, hn⟩ := hcell
  cases hn

/-- **A SERIES HAS REAL ZEROS, CURRENCIES APART**: every covered row has a number
    under every count, except that a currency's counts are `null` in the rows of
    a volume partition in which it completed nothing. -/
theorem hasZeros_iff {document : Document F}
    (hmem : document ∈ (Snapshot.compute digest A data coverage snapshotId now).documents)
    {report : Report} {slot : Partition} {scope : Option Scope} {payload : SeriesPayload}
    (haddress : document.address = .series report slot scope)
    (hpayload : document.envelope.payload = .series payload) :
    HasZeros coverage now slot.resolution slot.window payload
      ↔ report ≠ .volume ∨ EveryRowTraded data coverage now slot.resolution slot.window := by
  rcases Snapshot.mem_compute.mp hmem with ⟨_, _, rfl⟩ | ⟨_, family, _, hfamily, -, -, rfl⟩ |
    ⟨_, -, _, _, -, rfl⟩
  · cases haddress
  · cases haddress
    cases hpayload
    have hvolume : report = .volume ↔ family = .volume := by
      cases report <;> cases hfamily <;> decide
    constructor
    · intro hzeros
      by_cases hreport : report = .volume
      · cases hvolume.mp hreport
        exact .inr (traded_of_hasZeros hzeros)
      · exact .inl hreport
    · intro h
      exact hasZeros_of_traded (h.imp_left fun hne heq => hne (hvolume.mpr heq))
  · cases haddress

/-- An order settled in a currency. -/
def settledOrder (code : String) (settled : Int) : Stats.Order Int where
  orderId := "o"
  pubkey := "p"
  instance' := "p"
  createdAt := settled
  status := .success
  direction := .sell
  fiatCode := code
  paymentMethods := []
  amountSats := 1000
  fiatAmount := some 10
  premium := 0
  isMarketPrice := false
  fiatRange := none
  pendingAt := none
  origin := ⟨code, [], .sell⟩
  takenAt := none
  successAt := some settled
  canceledAt := none
  expiresAt := none

/-- One order, settled on the first of the three days. -/
def oneOrder : Data Int := { noData with orders := [settledOrder "ARS" 1769904060] }

/-- The daily partition of February. -/
def february : Partition := ⟨.daily, .month ⟨2026, by decide⟩ ⟨2, by decide⟩, rfl⟩

theorem february_listed (data : Data Int) {report : Report} {family : Family}
    (h : familyOf report = some family) :
    Snapshot.seriesDocument id .whole data threeDays ⟨"1", 1772323200⟩ report family february
      ∈ (Snapshot.compute id .whole data threeDays "1" 1772323200).documents :=
  Snapshot.mem_compute.mpr (.inr (.inl ⟨report, family, february, h, by decide +kernel,
    by decide +kernel, rfl⟩))

theorem orders_have_zeros :
    HasZeros threeDays 1772323200 .daily february.window
      (Snapshot.seriesAnswer .whole oneOrder threeDays 1772323200 .activity february) :=
  (hasZeros_iff (february_listed oneOrder (show familyOf .orders = some .activity from rfl)) rfl
    rfl).mpr (.inl (by decide))

theorem quiet_day_is_null :
    Snapshot.seriesDocument id .whole oneOrder threeDays ⟨"1", 1772323200⟩ .volume .volume february
        ∈ (Snapshot.compute id .whole oneOrder threeDays "1" 1772323200).documents
      ∧ ¬ HasZeros threeDays 1772323200 .daily february.window
          (Snapshot.seriesAnswer .whole oneOrder threeDays 1772323200 .volume february) := by
  refine ⟨february_listed oneOrder rfl, fun hzeros => ?_⟩
  have hday : ("2026-02-02", (⟨1769990400, 1770076800⟩ : Stats.Window))
      ∈ rowsOf .daily february.window := by decide +kernel
  have hmissing : "ARS" ∉ Stats.completedCodes oneOrder ⟨1769990400, 1770076800⟩ := by
    decide +kernel
  exact hmissing (traded_of_hasZeros hzeros _ hday (by decide) (by decide) "ARS"
    (by decide +kernel) (by decide +kernel))

end Publish
