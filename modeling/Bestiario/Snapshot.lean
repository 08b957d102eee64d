import Bestiario.Document

/-! # Snapshots

    `crates/stats/src/publish/snapshot.rs`: every document of a run, from one
    reading of the archive.  Each report has five window documents; the four
    with a family behind them have a series partition for every bucket the
    archive can speak for; and each instance has window documents of its own
    orders. -/

namespace Publish

open Groups
open Stats (Metric Value Floats Data Family Order Period dotted)

variable {F : Type}

/-! ## Window figures -/

/-- `traded`: whether any figure is above zero. -/
def traded (counts : List Nat) : Bool := counts.any fun count => decide (count > 0)

/-- The network's block of one currency: four counts, if any is above zero. -/
def fiatBlock (A : Floats F) (window : Stats.Window) (now : Int) (code : String)
    (group : List (Order F)) : List (Metric F) :=
  let activity := Stats.summarise A group window now
  let counts := [("created", activity.created), ("completed", activity.completed),
    ("canceled", activity.canceled), ("open_now", activity.openNow)]
  if !traded (counts.map Prod.snd) then []
  else counts.map fun (name, count) => .observed ("orders." ++ code ++ "." ++ name) (.count count)

/-- `fiat_counts`: the network's orders by currency. -/
def fiatCounts (A : Floats F) (orders : List (Order F)) (window : Stats.Window) (now : Int) :
    List (Metric F) :=
  (Stats.sliceFiat orders).flatMap fun (code, group) => fiatBlock A window now code group

/-- An instance's block of one currency: the whole of it, if it traded. -/
def instanceBlock (A : Floats F) (window : Stats.Window) (now : Int) (code : String)
    (group : List (Order F)) : List (Metric F) :=
  let activity := Stats.summarise A group window now
  if !traded [activity.created, activity.completed, activity.canceled, activity.openNow,
      activity.inProgressNow] then []
  else Stats.activityMetrics A ("orders." ++ code) activity

/-- `instance_metrics`: an instance's own block, and one for each currency it
    traded. -/
def instanceMetrics (A : Floats F) (own : List (Order F)) (window : Stats.Window) (now : Int) :
    List (Metric F) :=
  Stats.activityMetrics A "orders" (Stats.summarise A own window now)
    ++ (Stats.sliceFiat own).flatMap fun (code, group) => instanceBlock A window now code group

/-- `window_metrics`: a report's figures over `window`. -/
def windowMetrics (A : Floats F) (report : Report) (data : Data F) (window : Stats.Window)
    (now : Int) : List (Metric F) :=
  match report with
  | .orders =>
      Family.activity.metrics A data window now ++ fiatCounts A data.orders window now
  | .volume => Family.volume.metrics A data window now
  | .devFees => Family.devFees.metrics A data window now
  | .disputes => Family.disputes.metrics A data window now
  | .summary => Stats.Summary.report A data.orders (some data.disputes) window now
  | .market => Stats.Market.report A data.orders window
  | .instances => Stats.instancesList A data.profiles data.orders window now
  | .compare =>
      Stats.compareReport A data.profiles data.orders data.fees (some data.disputes) window now

/-- `family_of`: the family behind a report, for those that have one. -/
def familyOf : Report → Option Family
  | .orders => some .activity
  | .volume => some .volume
  | .devFees => some .devFees
  | .disputes => some .disputes
  | .summary | .market | .instances | .compare => none

/-! ## Rows -/

/-- `i64::saturating_add`, for what is not negative. -/
def saturatingAdd (a b : Int) : Int := min (a + b) (2 ^ 63 - 1)

def week : Int := 7 * 86400

def epochToMonday : Int := 3 * 86400

/-- The Monday of the week of `at'`. -/
def mondayOf (at' : Int) : Int := (at' + epochToMonday) / week * week - epochToMonday

/-- The weeks from `monday` on that open before `until'`. -/
def weeksFrom (until' : Int) : Nat → Int → List (String × Stats.Window)
  | 0, _ => []
  | fuel + 1, monday =>
      if monday < until' then
        let whole : Stats.Window := ⟨monday, saturatingAdd monday week⟩
        ((whole.buckets .week).head?.map fun (key, _) => (key, whole)).toList
          ++ weeksFrom until' fuel (saturatingAdd monday week)
      else []

/-- `weeks_of`: the whole weeks that open inside `span`. -/
def weeksOf (span : Stats.Window) : List (String × Stats.Window) :=
  let monday := mondayOf span.from'
  -- The week the month opens in began in the month before.
  let monday := if monday < span.from' then monday + week else monday
  weeksFrom span.until' (span.until' - monday).toNat monday

/-- `rows_of`: the buckets a partition has a row for. -/
def rowsOf (resolution : Resolution) (span : Stats.Window) : List (String × Stats.Window) :=
  match resolution with
  | .daily => span.buckets .day
  | .monthly => span.buckets .month
  | .weekly => weeksOf span

/-! ## Partitions -/

/-- `unit_of`. -/
def unitOf (A : Floats F) (value : Value F) : String := (value.normalised A).unit

/-- `cell`: the figure alone, `null` when it is missing. -/
def cell (A : Floats F) (value : Value F) : Json.Value :=
  match value.normalised A with
  | .count n => Value.int n
  | .sats n => Value.int n
  | .ratio x => .num (A.shortest x)
  | .seconds n => Value.int n
  | .fiat amount _ => .num (A.shortest amount)
  | .text s => .str s
  | .missing => .null

/-- `strip_prefix`, or the whole name. -/
def stripScope (scope name : String) : String :=
  if Family.startsWith name scope then String.ofList (name.toList.drop scope.toList.length)
  else name

/-- The column of one figure, from a sample of it over the whole span. -/
def column (A : Floats F) (family : Family) (data : Data F) (span : Stats.Window) (now : Int)
    (name : String) : Column :=
  let sample := Stats.measure A data span now name
  { name := stripScope (family.scope ++ ".") name
    kind := sample.map Metric.kind
    unit := sample.elim "missing" fun metric => unitOf A metric.value
    error := sample.bind Metric.error }

/-- The first column, the bucket's key. -/
def dateColumn : Column := ⟨"date", none, "date", none⟩

/-- One cell of a row: `null` outside what the archive holds. -/
def cellOf (A : Floats F) (data : Data F) (coverage : Coverage) (now : Int)
    (slot : Stats.Window) (name : String) : Json.Value :=
  if !coverage.covers slot || decide (slot.from' ≥ now) then .null
  else (Stats.measure A data slot now name).elim .null fun metric => cell A metric.value

/-- The payload of one partition. -/
def seriesPayload (A : Floats F) (family : Family) (data : Data F) (resolution : Resolution)
    (span : Stats.Window) (coverage : Coverage) (now : Int) : SeriesPayload :=
  let catalogue := Stats.catalogueOf A family data span now
  { period := .of span
    resolution := resolution.asStr
    columns := dateColumn :: catalogue.map (column A family data span now)
    rows := (rowsOf resolution span).map fun (key, slot) =>
      .str key :: catalogue.map (cellOf A data coverage now slot) }

/-- A computed series partition. -/
structure SeriesPartition where
  address : Address
  period : Stats.Window
  payload : SeriesPayload
  hash : String

/-- `partition`: nothing when the archive can speak for none of it. -/
def partition (digest : String → String) (A : Floats F) (data : Data F) (report : Report)
    (resolution : Resolution) (bucket : Bucket) (coverage : Coverage) (now : Int) :
    Option SeriesPartition := do
  let family ← familyOf report
  let slot ← Partition.new resolution bucket
  let span := slot.window
  if !coverage.covers span then none
  else
    let payload := seriesPayload A family data resolution span coverage now
    return ⟨.series report slot none, span, payload, hashOf digest A (.series payload : Payload F)⟩

/-! ## The whole snapshot -/

/-- `window_of`: the window a `<report>:<window>` document is computed over. -/
def windowOf (span : Window) (coverage : Coverage) (now : Int) : Stats.Window :=
  let until' := coverage.ceiling now
  let from' := match span with
    | .hours24 => until' - 86400
    | .days7 => until' - 7 * 86400
    | .days30 => until' - 30 * 86400
    | .days90 => until' - 90 * 86400
    | .all => min (coverage.earliest.getD until') until'
  ⟨from', until'⟩

/-- `SCOPED_REPORTS`: the reports published narrowed to one instance. -/
def scopedReports : List Report := [.orders]

namespace Snapshot

/-- A document computed in this run: its first revision. -/
def computed (digest : String → String) (A : Floats F) (run : Run) (address : Address)
    (period : Option Stats.Window) (payload : Payload F) : Document F where
  address := address
  envelope := .first run payload
  hash := hashOf digest A payload
  updatedAt := run.generatedAt
  period := period

/-- The five window documents of a report. -/
def windowDocuments (digest : String → String) (A : Floats F) (data : Data F)
    (coverage : Coverage) (run : Run) (report : Report) : List (Document F) :=
  Window.every.map fun span =>
    let window := windowOf span coverage run.generatedAt
    computed digest A run (.window report span none) none
      (.window (windowPayload window (windowMetrics A report data window run.generatedAt)))

/-- The series documents of a report. -/
def seriesDocuments (digest : String → String) (A : Floats F) (data : Data F)
    (coverage : Coverage) (run : Run) (report : Report) : List (Document F) :=
  if (familyOf report).isNone then []
  else Resolution.all.flatMap fun resolution =>
    (coverage.partitions resolution run.generatedAt).filterMap fun bucket =>
      (partition digest A data report resolution bucket coverage run.generatedAt).map
        fun partition => { computed digest A run partition.address (some partition.period)
          (.series partition.payload) with hash := partition.hash }

/-- The documents narrowed to one instance; none for a pubkey no address can
    name. -/
def scopedDocuments (digest : String → String) (A : Floats F) (data : Data F)
    (coverage : Coverage) (run : Run) (profile : Stats.Profile F) : List (Document F) :=
  match Scope.ofInstance profile.pubkey with
  | none => []
  | some scope =>
    let own := data.orders.filter fun order => order.pubkey == profile.pubkey
    scopedReports.flatMap fun report => Window.every.map fun span =>
      let window := windowOf span coverage run.generatedAt
      computed digest A run (.window report span (some scope)) none
        (.window (windowPayload window (instanceMetrics A own window run.generatedAt)))

/-- `Snapshot::compute`. -/
def compute (digest : String → String) (A : Floats F) (data : Data F) (coverage : Coverage)
    (snapshotId : String) (now : Int) : Snapshot F :=
  let run : Run := ⟨snapshotId, now⟩
  { run := run
    coverage := coverage
    documents :=
      (Report.all.flatMap fun report =>
        windowDocuments digest A data coverage run report
          ++ seriesDocuments digest A data coverage run report)
        ++ data.profiles.flatMap (scopedDocuments digest A data coverage run) }

/-! ## Which documents there are -/

variable {digest : String → String} {A : Floats F} {data : Data F} {coverage : Coverage}
  {snapshotId : String} {now : Int}

/-- The payload of a report's window document. -/
def windowAnswer (A : Floats F) (data : Data F) (coverage : Coverage) (now : Int)
    (report : Report) (span : Window) : Payload F :=
  let window := windowOf span coverage now
  .window (windowPayload window (windowMetrics A report data window now))

/-- The payload of an instance's window document. -/
def scopedAnswer (A : Floats F) (data : Data F) (coverage : Coverage) (now : Int)
    (pubkey : String) (span : Window) : Payload F :=
  let window := windowOf span coverage now
  let own := data.orders.filter fun order => order.pubkey == pubkey
  .window (windowPayload window (instanceMetrics A own window now))

theorem mem_windowDocuments {run : Run} {report : Report} {document : Document F} :
    document ∈ windowDocuments digest A data coverage run report
      ↔ ∃ span, document = computed digest A run (.window report span none) none
          (windowAnswer A data coverage run.generatedAt report span) := by
  rw [windowDocuments, List.mem_map]
  constructor
  · rintro ⟨span, -, rfl⟩
    exact ⟨span, rfl⟩
  · rintro ⟨span, rfl⟩
    exact ⟨span, by cases span <;> decide, rfl⟩

/-- The payload of a series document. -/
def seriesAnswer (A : Floats F) (data : Data F) (coverage : Coverage) (now : Int)
    (family : Family) (slot : Partition) : SeriesPayload :=
  seriesPayload A family data slot.resolution slot.window coverage now

/-- A series document. -/
def seriesDocument (digest : String → String) (A : Floats F) (data : Data F)
    (coverage : Coverage) (run : Run) (report : Report) (family : Family) (slot : Partition) :
    Document F :=
  computed digest A run (.series report slot none) (some slot.window)
    (.series (seriesAnswer A data coverage run.generatedAt family slot))

theorem partition_eq {report : Report} {family : Family} (hfamily : familyOf report = some family)
    (resolution : Resolution) (bucket : Bucket) :
    partition digest A data report resolution bucket coverage now
      = (Partition.new resolution bucket).bind fun slot =>
          if coverage.covers slot.window = true then
            some ⟨.series report slot none, slot.window,
              seriesPayload A family data resolution slot.window coverage now,
              hashOf digest A (.series (seriesPayload A family data resolution slot.window
                coverage now) : Payload F)⟩
          else none := by
  simp only [partition, hfamily, Option.bind_eq_bind, Option.bind_some]
  refine Option.bind_congr fun slot _ => ?_
  cases coverage.covers slot.window <;> rfl

theorem partition_of_covers {report : Report} {family : Family}
    (hfamily : familyOf report = some family) {resolution : Resolution} {bucket : Bucket}
    (hfits : bucket.fits resolution = true) (hcovers : coverage.covers bucket.window = true) :
    partition digest A data report resolution bucket coverage now
      = some ⟨.series report ⟨resolution, bucket, hfits⟩ none, bucket.window,
          seriesPayload A family data resolution bucket.window coverage now,
          hashOf digest A (.series (seriesPayload A family data resolution bucket.window
            coverage now) : Payload F)⟩ := by
  have hslot : Partition.new resolution bucket = some ⟨resolution, bucket, hfits⟩ :=
    dif_pos hfits
  rw [partition_eq hfamily, hslot, Option.bind_some]
  exact if_pos hcovers

theorem mem_seriesDocuments {run : Run} {report : Report} {document : Document F} :
    document ∈ seriesDocuments digest A data coverage run report
      ↔ ∃ family slot, familyOf report = some family
          ∧ slot.bucket ∈ coverage.partitions slot.resolution run.generatedAt
          ∧ coverage.covers slot.window = true
          ∧ document = seriesDocument digest A data coverage run report family slot := by
  rw [seriesDocuments]
  cases hfamily : familyOf report with
  | none => simp
  | some family =>
      rw [Option.isNone_some, if_neg Bool.false_ne_true, List.mem_flatMap]
      simp only [List.mem_filterMap, Option.map_eq_some_iff, partition_eq hfamily,
        Option.bind_eq_some_iff]
      constructor
      · rintro ⟨resolution, -, bucket, hmem, found, ⟨slot, hslot, hfound⟩, rfl⟩
        obtain ⟨rfl, rfl⟩ := Partition.new_eq_some.mp hslot
        split at hfound
        · rename_i hcovers
          cases hfound
          exact ⟨family, slot, rfl, hmem, hcovers, rfl⟩
        · cases hfound
      · rintro ⟨_, slot, heq, hmem, hcovers, rfl⟩
        cases heq
        refine ⟨slot.resolution, by cases slot.resolution <;> decide, slot.bucket, hmem, _,
          ⟨slot, Partition.new_eq_some.mpr ⟨rfl, rfl⟩, if_pos hcovers⟩, rfl⟩

theorem mem_scopedDocuments {run : Run} {profile : Stats.Profile F} {document : Document F} :
    document ∈ scopedDocuments digest A data coverage run profile
      ↔ ∃ scope span, Scope.ofInstance profile.pubkey = some scope
          ∧ document = computed digest A run (.window .orders span (some scope)) none
              (scopedAnswer A data coverage run.generatedAt profile.pubkey span) := by
  rw [scopedDocuments]
  cases hscope : Scope.ofInstance profile.pubkey with
  | none => simp
  | some scope =>
      simp only [scopedReports, List.flatMap_cons, List.flatMap_nil, List.append_nil,
        List.mem_map]
      constructor
      · rintro ⟨span, -, rfl⟩
        exact ⟨scope, span, rfl, rfl⟩
      · rintro ⟨_, span, heq, rfl⟩
        cases heq
        exact ⟨span, by cases span <;> decide, rfl⟩

/-- **THE DOCUMENTS OF A SNAPSHOT**: of each report, its windows; of each report
    with a family, the buckets the archive can speak for; of each instance an
    address can name, its windows. -/
theorem mem_compute {document : Document F} :
    document ∈ (compute digest A data coverage snapshotId now).documents
      ↔ (∃ report span, document = computed digest A ⟨snapshotId, now⟩
            (.window report span none) none (windowAnswer A data coverage now report span))
        ∨ (∃ report family slot, familyOf report = some family
            ∧ slot.bucket ∈ coverage.partitions slot.resolution now
            ∧ coverage.covers slot.window = true
            ∧ document
              = seriesDocument digest A data coverage ⟨snapshotId, now⟩ report family slot)
        ∨ ∃ profile ∈ data.profiles, ∃ scope span,
            Scope.ofInstance profile.pubkey = some scope
              ∧ document = computed digest A ⟨snapshotId, now⟩
                  (.window .orders span (some scope)) none
                  (scopedAnswer A data coverage now profile.pubkey span) := by
  simp only [compute, List.mem_append, List.mem_flatMap, mem_windowDocuments,
    mem_seriesDocuments, mem_scopedDocuments]
  have hall : ∀ report : Report, report ∈ Report.all := by
    intro report
    cases report <;> decide
  constructor
  · rintro (⟨report, -, ⟨span, rfl⟩ | ⟨family, slot, h⟩⟩ | h)
    · exact .inl ⟨report, span, rfl⟩
    · exact .inr (.inl ⟨report, family, slot, h⟩)
    · exact .inr (.inr h)
  · rintro (⟨report, span, rfl⟩ | ⟨report, family, slot, h⟩ | h)
    · exact .inl ⟨report, hall report, .inl ⟨span, rfl⟩⟩
    · exact .inl ⟨report, hall report, .inr ⟨family, slot, h⟩⟩
    · exact .inr h

/-- Every report has its five windows. -/
theorem exists_window (digest : String → String) (A : Floats F) (data : Data F)
    (coverage : Coverage) (snapshotId : String) (now : Int) (report : Report) (span : Window) :
    ∃ document ∈ (compute digest A data coverage snapshotId now).documents,
      document.address = .window report span none :=
  ⟨_, mem_compute.mpr (.inl ⟨report, span, rfl⟩), rfl⟩

/-- The answer at an address; only an instance's pubkey is read off a scope. -/
def answer (A : Floats F) (data : Data F) (coverage : Coverage) (now : Int) :
    Address → Option (Payload F)
  | .window report span none => some (windowAnswer A data coverage now report span)
  | .window _ span (some (.instance' pubkey _)) =>
      some (scopedAnswer A data coverage now pubkey span)
  | .series report slot none => (familyOf report).map fun family =>
      .series (seriesAnswer A data coverage now family slot)
  | _ => none

theorem ofInstance_eq_some {pubkey : String} {scope : Scope} :
    Scope.ofInstance pubkey = some scope
      ↔ ∃ h : isHex64 pubkey = true, scope = .instance' pubkey h := by
  rw [Scope.ofInstance]
  constructor
  · intro h
    split at h
    · rename_i hhex
      cases h
      exact ⟨hhex, rfl⟩
    · cases h
  · rintro ⟨hhex, rfl⟩
    exact dif_pos hhex

/-- **A DOCUMENT SAYS WHAT ITS ADDRESS ASKS**, and its hash is that of what it
    says. -/
theorem answer_of_mem {document : Document F}
    (h : document ∈ (compute digest A data coverage snapshotId now).documents) :
    answer A data coverage now document.address = some document.envelope.payload
      ∧ document.hash = hashOf digest A document.envelope.payload := by
  obtain ⟨report, span, rfl⟩ | ⟨report, family, slot, hfamily, -, -, rfl⟩
    | ⟨profile, -, scope, span, hscope, rfl⟩ := mem_compute.mp h
  · exact ⟨rfl, rfl⟩
  · refine ⟨?_, rfl⟩
    show (familyOf report).map _ = _
    rw [hfamily]
    rfl
  · obtain ⟨_, rfl⟩ := ofInstance_eq_some.mp hscope
    exact ⟨rfl, rfl⟩

/-- The span a document covers is that of the partition its address names. -/
theorem period_of_mem {document : Document F}
    (h : document ∈ (compute digest A data coverage snapshotId now).documents) :
    document.period = match document.address with
      | .series _ slot _ => some slot.window
      | _ => none := by
  obtain ⟨report, span, rfl⟩ | ⟨report, family, slot, -, -, -, rfl⟩
    | ⟨profile, -, scope, span, -, rfl⟩ := mem_compute.mp h
  · rfl
  · rfl
  · rfl

/-! ## The series of a report -/

/-- A document as a partition of this report and resolution, if it is one. -/
def asSeries (report : Report) (resolution : Resolution) (document : Document F) :
    Option (Bucket × SeriesPayload) :=
  match document.address, document.envelope.payload with
  | .series r slot none, .series payload =>
      if r = report ∧ slot.resolution = resolution then some (slot.bucket, payload) else none
  | _, _ => none

/-- The partitions of one series, in the order they are published. -/
def series (snapshot : Snapshot F) (report : Report) (resolution : Resolution) :
    List (Bucket × SeriesPayload) :=
  snapshot.documents.filterMap (asSeries report resolution)

/-- Only the series documents of the report count. -/
theorem asSeries_seriesDocument {run : Run} {report report' : Report} {family : Family}
    {slot : Partition} {resolution : Resolution} :
    asSeries report resolution (seriesDocument digest A data coverage run report' family slot)
      = if report' = report ∧ slot.resolution = resolution then
          some (slot.bucket, seriesAnswer A data coverage run.generatedAt family slot)
        else none := rfl

theorem filterMap_seriesDocuments {run : Run} {report : Report} {family : Family}
    (hfamily : familyOf report = some family) (resolution : Resolution)
    (h : ∀ bucket ∈ coverage.partitions resolution run.generatedAt,
      bucket.fits resolution = true ∧ coverage.covers bucket.window = true) :
    (seriesDocuments digest A data coverage run report).filterMap (asSeries report resolution)
      = (coverage.partitions resolution run.generatedAt).map fun bucket =>
          (bucket, seriesPayload A family data resolution bucket.window coverage
            run.generatedAt) := by
  rw [seriesDocuments, hfamily, Option.isNone_some, if_neg Bool.false_ne_true,
    List.filterMap_flatMap,
    flatMap_single (show Resolution.all.Nodup by decide)
      (show resolution ∈ Resolution.all by cases resolution <;> decide)]
  · rw [List.filterMap_filterMap, ← List.filterMap_eq_map]
    refine List.filterMap_congr fun bucket hmem => ?_
    obtain ⟨hfits, hcovers⟩ := h bucket hmem
    rw [partition_of_covers hfamily hfits hcovers]
    exact if_pos ⟨rfl, rfl⟩
  · intro other _ hne
    rw [List.filterMap_eq_nil_iff]
    intro document hmem
    obtain ⟨bucket, -, hdoc⟩ := List.mem_filterMap.mp hmem
    obtain ⟨found, hfound, rfl⟩ := Option.map_eq_some_iff.mp hdoc
    rw [partition_eq hfamily, Option.bind_eq_some_iff] at hfound
    obtain ⟨slot, hslot, hfound⟩ := hfound
    obtain ⟨rfl, -⟩ := Partition.new_eq_some.mp hslot
    split at hfound
    · cases hfound
      simp [asSeries, computed, Envelope.first, hne]
    · cases hfound

/-- **A SERIES IS PUBLISHED BUCKET BY BUCKET**, each with its own payload. -/
theorem series_compute {e : Int} (h : coverage.Reads e now) (report : Report)
    (resolution : Resolution) :
    (compute digest A data coverage snapshotId now).series report resolution
      = (familyOf report).elim [] fun family =>
          (coverage.partitions resolution now).map fun bucket =>
            (bucket, seriesPayload A family data resolution bucket.window coverage now) := by
  have hpartitions : ∀ bucket ∈ coverage.partitions resolution now,
      bucket.fits resolution = true ∧ coverage.covers bucket.window = true :=
    fun bucket hmem => ⟨((Coverage.mem_partitions h).mp hmem).1, Coverage.covers_of_mem h hmem⟩
  have hscoped : (data.profiles.flatMap
      (scopedDocuments digest A data coverage ⟨snapshotId, now⟩)).filterMap
        (asSeries report resolution) = [] := by
    rw [List.filterMap_eq_nil_iff]
    intro document hmem
    obtain ⟨profile, -, hdoc⟩ := List.mem_flatMap.mp hmem
    obtain ⟨scope, span, -, rfl⟩ := mem_scopedDocuments.mp hdoc
    rfl
  have hwindows : ∀ other, (windowDocuments digest A data coverage ⟨snapshotId, now⟩
      other).filterMap (asSeries report resolution) = [] := by
    intro other
    rw [List.filterMap_eq_nil_iff]
    intro document hmem
    obtain ⟨span, rfl⟩ := mem_windowDocuments.mp hmem
    rfl
  rw [series, compute, List.filterMap_append, hscoped, List.append_nil, List.filterMap_flatMap,
    flatMap_single (show Report.all.Nodup by decide)
      (show report ∈ Report.all by cases report <;> decide)]
  · rw [List.filterMap_append, hwindows, List.nil_append]
    cases hfamily : familyOf report with
    | none =>
        rw [seriesDocuments, hfamily]
        rfl
    | some family => exact filterMap_seriesDocuments hfamily resolution hpartitions
  · intro other _ hne
    rw [List.filterMap_append, hwindows, List.nil_append, List.filterMap_eq_nil_iff]
    intro document hmem
    obtain ⟨family, slot, -, -, -, rfl⟩ := mem_seriesDocuments.mp hmem
    rw [asSeries_seriesDocument, if_neg fun h => hne h.1]

end Snapshot

end Publish
