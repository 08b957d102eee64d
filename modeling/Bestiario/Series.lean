import Bestiario.Lib.Segments
import Bestiario.Views

/-! # Series

    `crates/stats/src/series.rs`: the four families of figures that have a shape
    over time, what each reports over a window, and which of it can be plotted.

    A family's block falls into two parts: the figures of the window, and the
    figures about *now*.  The second part depends on the clock and is never
    plotted, the first does not depend on it; that split is what a series rests
    on. -/

namespace Stats

open Keyed RateBook

variable {F : Type}

/-- `Assumption`: the share of the fee passed on, by instance. -/
structure Assumption (F : Type) where
  perInstance : Table String F
  otherwise : F

def Assumption.share (assumption : Assumption F) (pubkey : String) : F :=
  (assumption.perInstance[pubkey]?).getD assumption.otherwise

/-- `Priced`: what to price orders from, and in. -/
structure Priced (F : Type) where
  book : Book F
  code : String

/-- Everything the reports are computed from. -/
structure Data (F : Type) where
  orders : List (Order F)
  fees : DevFeeData F
  disputes : DisputeData
  profiles : List (Profile F)
  devFeePct : Option (Assumption F)
  priced : Option (Priced F)

/-- The families a series can be taken over. -/
inductive Family where
  | activity
  | volume
  | devFees
  | disputes
  deriving DecidableEq, Repr

namespace Family

/-- `Family::prefix`. -/
def scope : Family → String
  | .activity => "orders"
  | .volume => "volume"
  | .devFees => "dev_fees"
  | .disputes => "disputes"

/-- `str::starts_with`. -/
def startsWith (name start : String) : Bool := start.toList.isPrefixOf name.toList

/-- `Family::of`: the family a name belongs to. -/
def of (metric : String) : Option Family :=
  [activity, volume, devFees, disputes].find? fun family =>
    startsWith metric (family.scope ++ ".")

/-- `Family::metrics`: the whole block over `window`. -/
def metrics (A : Floats F) (data : Data F) (window : Window) (now : Int) :
    Family → List (Metric F)
  | .activity => activityMetrics A "orders" (summarise A data.orders window now)
  | .volume =>
      Volume.metrics A "volume" (Volume.summarise A data.orders window)
        ++ data.priced.elim [] fun priced =>
          Converted.metrics A "volume"
            (Converted.convert A data.orders window priced.book priced.code)
  | .devFees =>
      DevFees.metrics A "dev_fees" (DevFees.summarise A data.fees window)
        ++ data.devFeePct.elim [] fun assumption =>
          Implied.metrics A "dev_fees"
            (Implied.summarise A data.fees window assumption.share)
  | .disputes => Disputes.metrics A "disputes" (Disputes.summarise A data.disputes window now)

end Family

/-- Why a name has no shape over time. -/
inductive SeriesError where
  | aboutNow (metric : String)
  | alreadyADelta (metric : String)
  deriving DecidableEq, Repr

/-- `str::ends_with`. -/
def endsWith (name ending : String) : Bool := ending.toList.isSuffixOf name.toList

/-- `str::contains`. -/
def hasText (name needle : String) : Bool := decide (needle.toList <:+: name.toList)

/-- `plottable`. -/
def plottable (name : String) : Except SeriesError Unit :=
  if endsWith name "_now" then .error (.aboutNow name)
  else if hasText name ".open." then .error (.aboutNow name)
  else if endsWith name "_delta" then .error (.alreadyADelta name)
  else .ok ()

/-- `plottable(name).is_ok()`. -/
def isPlottable (name : String) : Bool := (plottable name).toBool

/-- `catalogue_of`: the plottable names of one family over `window`. -/
def catalogueOf (A : Floats F) (family : Family) (data : Data F) (window : Window)
    (now : Int) : List String :=
  ((family.metrics A data window now).map Metric.name).filter isPlottable

/-- `measure`: a metric over `window` by its name. -/
def measure (A : Floats F) (data : Data F) (window : Window) (now : Int) (metric : String) :
    Option (Metric F) :=
  (Family.of metric).bind fun family =>
    (family.metrics A data window now).find? fun candidate => candidate.name == metric

/-! ## The two parts of a block -/

namespace Family

variable {A : Floats F} {data : Data F} {window : Window} {now : Int}

/-- The part of a block that is about the window. -/
def windowed (A : Floats F) (data : Data F) (window : Window) (now : Int) :
    Family → List (Metric F)
  | .activity => datedMetrics A "orders" (summarise A data.orders window now)
  | .volume => Family.metrics A data window now .volume
  | .devFees => Family.metrics A data window now .devFees
  | .disputes =>
      Disputes.datedMetrics A "disputes" (Disputes.summarise A data.disputes window now)

/-- The part of a block that is about *now*. -/
def aboutNow (A : Floats F) (data : Data F) (window : Window) (now : Int) :
    Family → List (Metric F)
  | .activity =>
      let activity := summarise A data.orders window now
      [count "orders" "open_now" activity.openNow,
        count "orders" "in_progress_now" activity.inProgressNow]
  | .volume => []
  | .devFees => []
  | .disputes =>
      Disputes.openMetrics "disputes" (Disputes.summarise A data.disputes window now)

theorem metrics_eq (family : Family) :
    family.metrics A data window now
      = family.windowed A data window now ++ family.aboutNow A data window now := by
  cases family with
  | activity => rfl
  | volume => exact (List.append_nil _).symm
  | devFees => exact (List.append_nil _).symm
  | disputes => rfl

/-- **THE WINDOWED PART DOES NOT READ THE CLOCK.** -/
theorem windowed_clock (family : Family) (now' : Int) :
    family.windowed A data window now = family.windowed A data window now' := by
  cases family with
  | activity => simp only [windowed, datedMetrics, summarise]
  | volume => simp only [windowed, Family.metrics]
  | devFees => simp only [windowed, Family.metrics]
  | disputes =>
      simp only [windowed, Disputes.datedMetrics, Disputes.statusMetrics,
        Disputes.initiatorMetrics, Disputes.summarise]

/-- **THE PART ABOUT *NOW* IS NEVER PLOTTED.** -/
theorem aboutNow_not_plottable (family : Family) :
    ∀ m ∈ family.aboutNow A data window now, isPlottable m.name = false := by
  have hopen : ∀ rest : String, isPlottable (dotted "disputes" ("open." ++ rest)) = false := by
    intro rest
    have htext : hasText (dotted "disputes" ("open." ++ rest)) ".open." = true := by
      rw [hasText, decide_eq_true_iff]
      exact ⟨"disputes".toList, rest.toList, by simp [dotted]⟩
    rw [isPlottable, plottable, if_pos htext]
    split <;> rfl
  intro m hm
  cases family with
  | activity =>
      simp only [aboutNow, List.mem_cons, List.not_mem_nil, or_false] at hm
      rcases hm with rfl | rfl <;> rw [count_name] <;> decide +kernel
  | volume => cases hm
  | devFees => cases hm
  | disputes =>
      rw [aboutNow, Disputes.openMetrics, List.mem_cons, List.mem_flatMap] at hm
      rcases hm with rfl | ⟨entry, -, hentry⟩
      · rw [count_name]
        decide +kernel
      · simp only [List.mem_cons, List.not_mem_nil, or_false] at hentry
        rcases hentry with rfl | rfl
        · rw [Metric.observed_name, String.append_assoc]
          exact hopen _
        · rw [secondsMetric_name, String.append_assoc]
          exact hopen _

/-! ## Whose name it is -/

/-- A dotted name belongs to the family it starts with. -/
theorem of_dotted (family : Family) (name : String) :
    Family.of (dotted family.scope name) = some family := by
  cases family <;> simp [Family.of, startsWith, dotted, scope, List.isPrefixOf]

end Family

/-! ## The shape of a block

    Which figures a block has, and which of them are counts, is fixed for three
    of the families.  The volume block has seven more for every currency that
    completed an order in the window. -/

/-- Whether a value is a count. -/
def Value.isCount : Value F → Bool
  | .count _ => true
  | _ => false

/-- A figure's name, and whether it is a count. -/
def Metric.shape (m : Metric F) : String × Bool := (m.name, m.value.isCount)

section Shapes

variable (A : Floats F) (scope name error : String)

@[simp] theorem Value.isCount_ofRatio (x : F) : (Value.ofRatio A x).isCount = false := by
  rw [Value.ofRatio]
  split <;> rfl

@[simp] theorem Value.isCount_ofFiat (x : F) (code : String) :
    (Value.ofFiat A x code).isCount = false := by
  rw [Value.ofFiat]
  split <;> rfl

@[simp] theorem Value.isCount_sats (n : Int) : (Value.sats n : Value F).isCount = false := rfl

@[simp] theorem Value.isCount_count (n : Int) : (Value.count n : Value F).isCount = true := rfl

/-- What is missing is no count either. -/
theorem Value.isCount_elim {T : Type} (value : Option T) {f : T → Value F}
    (h : ∀ x, (f x).isCount = false) : (value.elim .missing f).isCount = false := by
  cases value with
  | none => rfl
  | some x => exact h x

@[simp] theorem Metric.shape_observed (value : Value F) :
    (Metric.observed name value).shape = (name, value.isCount) := rfl

@[simp] theorem Metric.shape_inferred (value : Value F) :
    (Metric.inferred name value error).shape = (name, value.isCount) := rfl

@[simp] theorem shape_count (value : Nat) :
    (count scope name value : Metric F).shape = (dotted scope name, true) := rfl

@[simp] theorem shape_ratioMetric (value : Option F) :
    (ratioMetric A scope name value).shape = (dotted scope name, false) := by
  rw [ratioMetric, Metric.shape_observed, Value.isCount_elim value (Value.isCount_ofRatio A)]

@[simp] theorem shape_satsMetric (value : Option Int) :
    (satsMetric scope name value : Metric F).shape = (dotted scope name, false) := by
  rw [satsMetric, Metric.shape_observed, Value.isCount_elim value fun _ => rfl]

@[simp] theorem shape_secondsMetric (value : Option Int) :
    (secondsMetric scope name value : Metric F).shape = (dotted scope name, false) := by
  rw [secondsMetric, Metric.shape_observed, Value.isCount_elim value fun _ => rfl]

end Shapes

/-- The currencies that completed an order in the window. -/
def completedCodes (data : Data F) (window : Window) : List String :=
  Groups.keysOf ((completedIn data.orders window).map Order.fiatCode)

/-- The words of a currency's figures. -/
def fiatWords : List (String × Bool) :=
  [("total", false), ("orders", true), ("sats", false), ("completed", true),
    ("ticket_avg", false), ("ticket_p50", false), ("ticket_p90", false)]

/-- The name of one currency's figure. -/
def fiatName (code word : String) : String := "fiat." ++ code ++ "." ++ word

/-- The seven figures of one currency. -/
def fiatFigures (code : String) : List (String × Bool) :=
  fiatWords.map fun word => (fiatName code word.1, word.2)

/-- The figures of the conversion, when there is one. -/
def convertedFigures (data : Data F) : List (String × Bool) :=
  data.priced.elim [] fun priced =>
    [("total", false), ("orders", true), ("unpriced_sats", false), ("rate_age_max", false)].map
      fun figure => ("in." ++ priced.code ++ "." ++ figure.1, figure.2)

/-- The figures of the volume block that every window has. -/
def volumeFigures : List (String × Bool) :=
  [("sats", false), ("completed", true), ("ticket_avg", false), ("ticket_p50", false),
    ("ticket_p90", false), ("largest", false), ("size.lt_10k", true), ("size.10k_50k", true),
    ("size.50k_200k", true), ("size.200k_1m", true), ("size.gt_1m", true),
    ("buy_sats", false), ("sell_sats", false)]

namespace Family

/-- The figures of a family's windowed part, `codes` being the currencies that
    completed an order. -/
def figures (data : Data F) (codes : List String) : Family → List (String × Bool)
  | .activity =>
      [("created", true), ("completed", true), ("canceled", true), ("completion_rate", false),
        ("abandonment_rate", false), ("created_delta", false), ("completed_delta", false)]
  | .volume => volumeFigures ++ codes.flatMap fiatFigures ++ convertedFigures data
  | .devFees =>
      [("total_sats", false), ("paid", true), ("coverage", false), ("latency_p50", false),
        ("latency_p90", false), ("duplicates", true), ("orphans", true)]
        ++ data.devFeePct.elim [] fun _ =>
          [("implied_volume", false), ("with_fee_volume", false), ("implied_vs_observed", false)]
  | .disputes =>
      [("opened", true)]
        ++ DisputeStatus.all.map (fun status => ("status." ++ status.asKey, true))
        ++ [("initiator.buyer", false), ("initiator.seller", false), ("rate", false),
          ("resolved", true)]
        ++ DisputeStatus.terminal.map (fun status => ("outcome." ++ status.asKey, false))
        ++ [("resolution_p50", false), ("resolution_p90", false)]

/-- A figure under its family's name. -/
def named (family : Family) (figure : String × Bool) : String × Bool :=
  (dotted family.scope figure.1, figure.2)

end Family

/-- Filing sizes one after another keeps the number of buckets. -/
theorem length_filed (sizes : List Int) (buckets : List Nat) :
    (sizes.foldl (fun buckets size => buckets.modify (sizeBucket size) (· + 1)) buckets).length
      = buckets.length := by
  induction sizes generalizing buckets with
  | nil => rfl
  | cons size rest ih => rw [List.foldl_cons, ih, List.length_modify]

theorem shape_sizes (A : Floats F) (orders : List (Order F)) (window : Window) :
    ((sizeBuckets.zip (Volume.summarise A orders window).buckets).map
        fun filed => (count "volume" ("size." ++ filed.1.1) filed.2 : Metric F)).map Metric.shape
      = sizeBuckets.map fun bucket => (dotted "volume" ("size." ++ bucket.1), true) := by
  have hlen : sizeBuckets.length ≤ (Volume.summarise A orders window).buckets.length :=
    le_of_eq (length_filed _ [0, 0, 0, 0, 0]).symm
  conv_rhs => rw [← List.map_fst_zip hlen]
  rw [List.map_map, List.map_map]
  rfl

theorem shape_fixedMetrics (A : Floats F) (orders : List (Order F)) (window : Window) :
    (Volume.fixedMetrics "volume" (Volume.summarise A orders window)).map Metric.shape
      = volumeFigures.map Family.volume.named := by
  rw [Volume.fixedMetrics, List.map_append, List.map_append, shape_sizes]
  simp [sizeBuckets, volumeFigures, Family.named, Family.scope]

theorem shape_fiatMetrics (A : Floats F) (code : String) (fiat : FiatVolume F) :
    (Volume.fiatMetrics A "volume" code fiat).map Metric.shape
      = (fiatFigures code).map Family.volume.named := by
  have hfigure : ∀ pick : FiatFigures F → F, (fiat.figures.elim .missing fun figures =>
      Value.ofFiat A (pick figures) code).isCount = false :=
    fun pick => Value.isCount_elim fiat.figures fun figures =>
      Value.isCount_ofFiat A (pick figures) code
  have hsats : (fiat.sats.elim (.missing : Value F) .sats).isCount = false :=
    Value.isCount_elim fiat.sats fun _ => rfl
  simp only [Volume.fiatMetrics, fiatFigures, fiatWords, fiatName, Family.named, Family.scope,
    List.map_cons, List.map_nil, Metric.shape_observed, hfigure, hsats, Value.isCount_count]

theorem shape_convertedMetrics (A : Floats F) (converted : Converted F) :
    (Converted.metrics A "volume" converted).map Metric.shape
      = [("total", false), ("orders", true), ("unpriced_sats", false),
          ("rate_age_max", false)].map fun figure =>
        (dotted "volume" ("in." ++ converted.code ++ "." ++ figure.1), figure.2) := by
  have hsats : (converted.unpricedSats.elim (.missing : Value F) .sats).isCount = false :=
    Value.isCount_elim _ fun _ => rfl
  have hage : (converted.rateAgeMaxSecs.elim (.missing : Value F) .seconds).isCount = false :=
    Value.isCount_elim _ fun _ => rfl
  simp only [Converted.metrics, List.map_cons, List.map_nil, Metric.shape_inferred, hsats, hage,
    Value.isCount_count]
  refine List.cons_eq_cons.mpr ⟨Prod.ext rfl ?_, rfl⟩
  cases converted.total with
  | none => rfl
  | some total =>
      simp only
      split
      · exact Value.isCount_ofFiat A total _
      · rfl

theorem shape_impliedMetrics (A : Floats F) (implied : Implied F) :
    (Implied.metrics A "dev_fees" implied).map Metric.shape
      = [("implied_volume", false), ("with_fee_volume", false),
          ("implied_vs_observed", false)].map Family.devFees.named := by
  have hvolume : ((Implied.volumeSats A implied).elim (.missing : Value F) .sats).isCount
      = false := Value.isCount_elim _ fun _ => rfl
  have hratio : ((Implied.impliedVsObserved A implied).elim .missing
      (Value.ofRatio A)).isCount = false := Value.isCount_elim _ (Value.isCount_ofRatio A)
  simp only [Implied.metrics, List.map_cons, List.map_nil, Metric.shape_inferred,
    shape_satsMetric, hvolume, hratio, Family.named, Family.scope]

/-- The conversion keeps the currency it was asked for. -/
theorem convert_code (A : Floats F) (orders : List (Order F)) (window : Window)
    (book : RateBook.Book F) (code : String) :
    (Converted.convert A orders window book code).code = code := by
  have hstep : ∀ (converted : Converted F) (order : Order F),
      (Converted.step A book code converted order).code = converted.code := by
    intro converted order
    rw [Converted.step]
    split
    · rfl
    · split
      · rfl
      · simp only
        split <;> rfl
  have hfold : ∀ (done : List (Order F)) (converted : Converted F),
      (done.foldl (Converted.step A book code) converted).code = converted.code := by
    intro done
    induction done with
    | nil => exact fun _ => rfl
    | cons order rest ih =>
        intro converted
        rw [List.foldl_cons, ih, hstep]
  exact hfold _ _

namespace Family

variable {A : Floats F} {data : Data F} {window : Window} {now : Int}

theorem shape_converted (A : Floats F) (data : Data F) (window : Window) :
    (data.priced.elim [] fun priced => Converted.metrics A "volume"
        (Converted.convert A data.orders window priced.book priced.code)).map Metric.shape
      = (convertedFigures data).map Family.volume.named := by
  rw [convertedFigures]
  cases data.priced with
  | none => rfl
  | some priced =>
      rw [Option.elim_some, Option.elim_some, shape_convertedMetrics, convert_code, List.map_map]
      rfl

theorem shape_volume :
    (Family.volume.windowed A data window now).map Metric.shape
      = (Family.volume.figures data (completedCodes data window)).map Family.volume.named := by
  have hfiat : ((Volume.summarise A data.orders window).fiat.flatMap fun entry =>
        Volume.fiatMetrics A "volume" entry.1 entry.2).map Metric.shape
      = ((completedCodes data window).flatMap fiatFigures).map Family.volume.named := by
    rw [List.map_flatMap, List.map_flatMap, Volume.summarise, Groups.groups, List.map_map,
      List.flatMap_map, completedCodes]
    exact List.flatMap_congr fun code _ => shape_fiatMetrics A code _
  rw [windowed, Family.metrics, Volume.metrics, List.map_append, List.map_append,
    shape_fixedMetrics, shape_converted, figures, List.map_append, List.map_append, ← hfiat]

/-- **A BLOCK HAS ITS FAMILY'S FIGURES**, whatever happened in the window, and
    whether one is a count does not depend on it. -/
theorem shape_windowed (family : Family) :
    (family.windowed A data window now).map Metric.shape
      = (family.figures data (completedCodes data window)).map family.named := by
  cases family with
  | activity => simp [windowed, datedMetrics, figures, named, scope]
  | volume => exact shape_volume
  | devFees =>
      cases hpct : data.devFeePct with
      | none => simp [windowed, Family.metrics, hpct, DevFees.metrics, figures, named, scope]
      | some assumption =>
          have himplied := fun implied : Implied F =>
            shape_impliedMetrics A implied
          simp [windowed, Family.metrics, hpct, DevFees.metrics, himplied, figures, named, scope]
  | disputes =>
      simp [windowed, Disputes.datedMetrics, Disputes.statusMetrics, Disputes.initiatorMetrics,
        Disputes.summarise, DisputeStatus.all, DisputeStatus.terminal, figures, named, scope]

/-! ## Looking a figure up -/

theorem dotted_inj {scope name name' : String} :
    dotted scope name = dotted scope name' ↔ name = name' := by
  rw [dotted, dotted]
  exact ⟨fun h => String.append_right_inj _ |>.mp h, fun h => h ▸ rfl⟩

/-- The catalogue is the family's figures, less those that cannot be plotted. -/
theorem catalogueOf_eq (family : Family) :
    catalogueOf A family data window now
      = ((family.figures data (completedCodes data window)).map fun figure =>
          dotted family.scope figure.1).filter isPlottable := by
  have hnames : (family.windowed A data window now).map Metric.name
      = (family.figures data (completedCodes data window)).map fun figure =>
          dotted family.scope figure.1 := by
    have hshape : ((family.windowed A data window now).map Metric.shape).map Prod.fst
        = ((family.figures data (completedCodes data window)).map family.named).map Prod.fst := by
      rw [shape_windowed]
    rw [List.map_map, List.map_map] at hshape
    exact hshape
  have hnow : ((family.aboutNow A data window now).map Metric.name).filter isPlottable = [] := by
    rw [List.filter_eq_nil_iff]
    intro name hname
    obtain ⟨m, hm, rfl⟩ := List.mem_map.mp hname
    simp [family.aboutNow_not_plottable m hm]
  rw [catalogueOf, metrics_eq, List.map_append, List.filter_append, hnames, hnow,
    List.append_nil]

/-- What is plotted is looked up in the windowed part. -/
theorem measure_eq (family : Family) {name : String}
    (h : isPlottable (dotted family.scope name) = true) :
    measure A data window now (dotted family.scope name)
      = (family.windowed A data window now).find? fun m =>
          m.name == dotted family.scope name := by
  have hnow : (family.aboutNow A data window now).find? (fun m =>
      m.name == dotted family.scope name) = none := by
    rw [List.find?_eq_none]
    intro m hm heq
    rw [← eq_of_beq heq, family.aboutNow_not_plottable m hm] at h
    cases h
  rw [measure, of_dotted, Option.bind_some, metrics_eq, List.find?_append, hnow, Option.or_none]

/-- **WHETHER A FIGURE IS THERE, AND IS A COUNT**, is read off the family. -/
theorem shape_measure (family : Family) {name : String}
    (h : isPlottable (dotted family.scope name) = true) :
    (measure A data window now (dotted family.scope name)).map Metric.shape
      = ((family.figures data (completedCodes data window)).find? fun figure =>
          figure.1 == name).map family.named := by
  have hmap : ∀ l : List (Metric F), (l.find? fun m => m.name == dotted family.scope name).map
      Metric.shape = (l.map Metric.shape).find? fun shape =>
        shape.1 == dotted family.scope name := by
    intro l
    rw [List.find?_map]
    rfl
  rw [measure_eq family h, hmap, shape_windowed, List.find?_map]
  congr 1
  refine congrArg (fun p => List.find? p _) (funext fun figure => ?_)
  rw [Function.comp_apply, named, Bool.eq_iff_iff, beq_iff_eq, beq_iff_eq, dotted_inj]

/-! ## Figures every window has -/

/-- A count that every window of the family has. -/
def anchor : Family → String
  | .activity => "created"
  | .volume => "completed"
  | .devFees => "paid"
  | .disputes => "opened"

theorem anchor_plottable (family : Family) :
    isPlottable (dotted family.scope family.anchor) = true := by
  cases family <;> decide +kernel

theorem find_anchor (family : Family) (codes : List String) :
    (family.figures data codes).find? (fun figure => figure.1 == family.anchor)
      = some (family.anchor, true) := by
  cases family <;> rfl

theorem figures_of_ne_volume {family : Family} (h : family ≠ .volume) (codes codes' : List String) :
    family.figures data codes = family.figures data codes' := by
  cases family with
  | activity => rfl
  | volume => exact absurd rfl h
  | devFees => rfl
  | disputes => rfl

end Family

/-! ## The figures of a currency -/

/-- A code whose figures are plotted: no segment of it reads `open`. -/
def plottedCode (code : String) : Bool := !hasText ("volume.fiat." ++ code ++ ".") ".open."

theorem fiatWord_dot {word : String × Bool} (hword : word ∈ fiatWords) :
    '.' ∉ word.1.toList := by
  revert word
  decide

/-- What ends a currency's figure is decided by its word. -/
theorem endsWith_fiat {word : String × Bool} (hword : word ∈ fiatWords) (code : String)
    {ending : String} (hending : ending = "_now" ∨ ending = "_delta") :
    endsWith (dotted "volume" (fiatName code word.1)) ending = false := by
  have hsplit : (dotted "volume" (fiatName code word.1)).toList
      = ("volume.fiat." ++ code ++ ".").toList ++ word.1.toList := by
    simp [dotted, fiatName]
  rw [Bool.eq_false_iff]
  intro hends
  rw [endsWith, hsplit, List.isSuffixOf_iff_suffix] at hends
  have hor := List.suffix_or_suffix_of_suffix hends (List.suffix_append _ _)
  clear hends hsplit
  revert hor
  rcases hending with rfl | rfl <;> revert word <;> decide

/-- Whether a currency's figure is plotted depends on the code alone. -/
theorem isPlottable_fiat {word : String × Bool} (hword : word ∈ fiatWords) (code : String) :
    isPlottable (dotted "volume" (fiatName code word.1)) = plottedCode code := by
  have hsplit : (dotted "volume" (fiatName code word.1)).toList
      = ("volume.fiat." ++ code ++ ".").toList ++ word.1.toList := by
    simp [dotted, fiatName]
  have htext : hasText (dotted "volume" (fiatName code word.1)) ".open."
      = hasText ("volume.fiat." ++ code ++ ".") ".open." := by
    rw [hasText, hasText, decide_eq_decide, hsplit]
    refine ⟨fun h => ?_, fun h => h.trans (List.infix_append [] _ _)⟩
    exact Segments.infix_of_append (fiatWord_dot hword)
      (show ".open".toList ++ ['.'] <:+: _ from h)
  rw [isPlottable, plottable, endsWith_fiat hword code (.inl rfl),
    endsWith_fiat hword code (.inr rfl), htext, plottedCode]
  cases hasText ("volume.fiat." ++ code ++ ".") ".open." <;> rfl

/-- A currency's figure names its code and its word. -/
theorem fiatName_inj {code code' : String} {word word' : String × Bool}
    (hword : word ∈ fiatWords) (hword' : word' ∈ fiatWords)
    (h : fiatName code word.1 = fiatName code' word'.1) : code = code' ∧ word.1 = word'.1 := by
  have hlist := congrArg String.toList h
  simp only [fiatName, String.toList_append, List.append_assoc] at hlist
  have hrest : code.toList ++ '.' :: word.1.toList = code'.toList ++ '.' :: word'.1.toList :=
    List.append_cancel_left hlist
  obtain ⟨hcode, hw⟩ := Segments.last_cut_inj (fiatWord_dot hword) (fiatWord_dot hword') hrest
  exact ⟨String.toList_inj.mp hcode, String.toList_inj.mp hw⟩

/-- One currency's figures, looked up under a name of another's or its own. -/
theorem find_fiatFigures {word : String × Bool} (hword : word ∈ fiatWords) (code code' : String) :
    (fiatFigures code').find? (fun figure => figure.1 == fiatName code word.1)
      = if code' = code then some (fiatName code word.1, word.2) else none := by
  by_cases hcode : code' = code
  · subst hcode
    have hfind : fiatWords.find? (fun word' => word'.1 == word.1) = some word := by
      revert word
      decide
    have hnames : ∀ word' ∈ fiatWords, (fiatName code' word'.1 == fiatName code' word.1)
        = (word'.1 == word.1) := by
      intro word' hword'
      rw [Bool.eq_iff_iff, beq_iff_eq, beq_iff_eq]
      exact ⟨fun h => (fiatName_inj hword' hword h).2, fun h => by rw [h]⟩
    rw [if_pos rfl, fiatFigures, List.find?_map]
    have hcongr : fiatWords.find? ((fun figure : String × Bool =>
          figure.1 == fiatName code' word.1) ∘ fun word => (fiatName code' word.1, word.2))
        = fiatWords.find? fun word' => word'.1 == word.1 :=
      List.find?_congr hnames
    rw [hcongr, hfind]
    rfl
  · rw [if_neg hcode, List.find?_eq_none]
    intro figure hfigure heq
    obtain ⟨word', hword', rfl⟩ := List.mem_map.mp hfigure
    exact hcode (fiatName_inj hword' hword (eq_of_beq heq)).1

/-- A currency has its figures exactly when it is among the codes. -/
theorem find_fiat {word : String × Bool} (hword : word ∈ fiatWords) (code : String)
    (codes : List String) :
    (codes.flatMap fiatFigures).find? (fun figure => figure.1 == fiatName code word.1)
      = if code ∈ codes then some (fiatName code word.1, word.2) else none := by
  have hother : ∀ other, other ≠ code → (fiatFigures other).find? (fun figure =>
      figure.1 == fiatName code word.1) = none := by
    intro other hne
    rw [find_fiatFigures hword, if_neg hne]
  rw [Groups.find?_flatMap hother, find_fiatFigures hword, if_pos rfl]

/-- The other figures of the block are not named after a currency. -/
theorem other_ne_fiat (data : Data F) {figure : String × Bool}
    (h : figure ∈ volumeFigures ∨ figure ∈ convertedFigures data) (code word : String) :
    figure.1 ≠ fiatName code word := by
  have hhead : (fiatName code word).toList.head? = some 'f' := by
    simp [fiatName]
  intro heq
  rw [← heq] at hhead
  rcases h with hfixed | hconverted
  · revert hhead
    clear heq
    revert figure
    decide
  · rw [convertedFigures] at hconverted
    cases hpriced : data.priced with
    | none =>
        rw [hpriced] at hconverted
        cases hconverted
    | some priced =>
        rw [hpriced] at hconverted
        obtain ⟨name, -, rfl⟩ := List.mem_map.mp hconverted
        simp at hhead

/-- **A CURRENCY IS IN THE BLOCK EXACTLY WHEN IT COMPLETED AN ORDER.** -/
theorem find_volume_fiat (data : Data F) {word : String × Bool} (hword : word ∈ fiatWords)
    (code : String) (codes : List String) :
    (Family.volume.figures data codes).find? (fun figure => figure.1 == fiatName code word.1)
      = if code ∈ codes then some (fiatName code word.1, word.2) else none := by
  have hfixed : volumeFigures.find? (fun figure => figure.1 == fiatName code word.1) = none :=
    List.find?_eq_none.mpr fun figure hfigure heq =>
      other_ne_fiat data (.inl hfigure) code word.1 (eq_of_beq heq)
  have hconverted : (convertedFigures data).find? (fun figure =>
      figure.1 == fiatName code word.1) = none :=
    List.find?_eq_none.mpr fun figure hfigure heq =>
      other_ne_fiat data (.inr hfigure) code word.1 (eq_of_beq heq)
  rw [Family.figures, List.find?_append, List.find?_append, hfixed, hconverted,
    find_fiat hword, Option.none_or, Option.or_none]

/-- A plotted figure of the block stays where every plotted currency stays. -/
theorem find_volume_mono (data : Data F) {codes codes' : List String}
    (h : ∀ code ∈ codes, plottedCode code = true → code ∈ codes') {name : String}
    (hname : isPlottable (dotted "volume" name) = true)
    (hfound : (Family.volume.figures data codes).find? (fun figure => figure.1 == name) ≠ none) :
    (Family.volume.figures data codes').find? (fun figure => figure.1 == name)
      = (Family.volume.figures data codes).find? fun figure => figure.1 == name := by
  by_cases hfiat : ∃ code, ∃ word ∈ fiatWords, name = fiatName code word.1
  · obtain ⟨code, word, hword, rfl⟩ := hfiat
    rw [find_volume_fiat data hword] at hfound ⊢
    rw [isPlottable_fiat hword] at hname
    by_cases hcode : code ∈ codes
    · rw [find_volume_fiat data hword, if_pos hcode, if_pos (h code hcode hname)]
    · exact absurd (if_neg hcode) hfound
  · have hnone : ∀ codes : List String,
        (codes.flatMap fiatFigures).find? (fun figure => figure.1 == name) = none := by
      intro codes
      refine List.find?_eq_none.mpr fun figure hfigure heq => hfiat ?_
      obtain ⟨code, -, hmem⟩ := List.mem_flatMap.mp hfigure
      obtain ⟨word, hword, rfl⟩ := List.mem_map.mp hmem
      exact ⟨code, word, hword, (eq_of_beq heq).symm⟩
    simp only [Family.figures, List.find?_append, hnone]

end Stats
