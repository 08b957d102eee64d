import Bestiario.Durations
import Bestiario.Republish

/-! # What the columns of a partition describe

    A series partition declares its columns once, from what the family reports over
    the month or the year it is addressed by.  Its rows are read over windows of
    their own, and `columns_describe_iff` says when the one declaration covers them
    all: every plotted figure that has a value over a row has one over the span.

    It need not.  The last week of a month runs into the next, where a currency may
    complete its first order; and the span can be without a value where a day has
    one, as a conversion is when none of the span's orders could be priced and the
    day had no order to price. -/

namespace Stats

variable {F : Type}

/-! ## What a figure needs -/

/-- A figure: its name, its unit where it has a value, and whether it has one. -/
structure Need where
  name : String
  unit : String
  met : Bool

namespace Need

/-- A count always has a value. -/
def count (name : String) : Need := ⟨name, "count", true⟩

/-- The unit a figure is shown with. -/
def shown (need : Need) : String := if need.met then need.unit else "missing"

/-- Its name under its family's, and the unit it is shown with. -/
def declared (family : Family) (need : Need) : String × String :=
  (dotted family.scope need.name, need.shown)

@[simp] theorem declared_count (family : Family) (name : String) :
    (count name).declared family = (dotted family.scope name, "count") := rfl

@[simp] theorem declared_mk (family : Family) (name unit : String) (met : Bool) :
    (mk name unit met).declared family
      = (dotted family.scope name, if met then unit else "missing") := rfl

end Need

section Conditions

variable (A : Floats F)

/-- A share of something is a number. -/
def rated (numerator denominator : Nat) : Bool :=
  decide (denominator > 0) && A.isFinite (A.div (A.ofInt numerator) (A.ofInt denominator))

/-- Growth over something is a number. -/
def grown (current previous : Nat) : Bool :=
  decide (previous > 0)
    && A.isFinite (A.div (A.sub (A.ofInt current) (A.ofInt previous)) (A.ofInt previous))

/-- A sum of sats is a word. -/
def fits (sats : List Int) : Bool := decide (-2 ^ 63 ≤ sats.sum ∧ sats.sum < 2 ^ 63)

/-- A percentile has its rank among so many samples. -/
def ranked (n : Nat) (p : F) : Bool := decide (rank A n p ≤ n)

/-- There are sizes, and their mean is a word. -/
def averaged (sizes : List Int) : Bool := !sizes.isEmpty
  && decide (-2 ^ 63 ≤ (2 * sizes.sum + sizes.length) / (2 * (sizes.length : Int))
    ∧ (2 * sizes.sum + sizes.length) / (2 * (sizes.length : Int)) < 2 ^ 63)

/-- The figures every window has of its volume. -/
def fixedNeeds (orders : List (Order F)) (window : Window) : List Need :=
  let done := completedIn orders window
  let sizes := done.map Order.amountSats
  let side (direction : Direction) : List Int :=
    (done.filter fun order => order.direction == direction).map Order.amountSats
  [⟨"sats", "sats", fits sizes⟩,
    .count "completed",
    ⟨"ticket_avg", "sats", averaged sizes⟩,
    ⟨"ticket_p50", "sats", ranked A done.length (p50 A)⟩,
    ⟨"ticket_p90", "sats", ranked A done.length (p90 A)⟩,
    ⟨"largest", "sats", !sizes.isEmpty⟩]
    ++ (sizeBuckets.map fun bucket => .count ("size." ++ bucket.1))
    ++ [⟨"buy_sats", "sats", fits (side .buy)⟩,
      ⟨"sell_sats", "sats", fits (side .sell)⟩]

/-- The figures of one currency: a sum of amounts that is a number, and what is drawn
    from it. -/
def fiatNeeds (code : String) (amounts : List F) (sats : List Int) : List Need :=
  let figure (pick : FiatFigures F → F) : Bool :=
    (fiatVolume A amounts sats).figures.any fun figures => A.isFinite (pick figures)
  [⟨fiatName code "total", "fiat", figure FiatFigures.total⟩,
    .count (fiatName code "orders"),
    ⟨fiatName code "sats", "sats", fits sats⟩,
    .count (fiatName code "completed"),
    ⟨fiatName code "ticket_avg", "fiat", figure FiatFigures.ticketAvg⟩,
    ⟨fiatName code "ticket_p50", "fiat", figure FiatFigures.ticketP50⟩,
    ⟨fiatName code "ticket_p90", "fiat", figure FiatFigures.ticketP90⟩]

/-- The name of one figure of the conversion. -/
def convertedName (code word : String) : String := "in." ++ code ++ "." ++ word

/-- The figures of the conversion: a total where something was priced, or nothing was
    left out of it; an age where something was priced. -/
def convertedNeeds (code : String) (converted : Converted F) : List Need :=
  [⟨convertedName code "total", "fiat", converted.total.any fun total =>
      decide (converted.priced > 0 ∨ converted.unpriced + converted.unusable = 0)
        && A.isFinite total⟩,
    .count (convertedName code "orders"),
    ⟨convertedName code "unpriced_sats", "sats", converted.unpricedSats.isSome⟩,
    ⟨convertedName code "rate_age_max", "seconds", converted.rateAgeMaxSecs.isSome⟩]

/-- The figures of what the fees imply: a volume unless there were fees and none could
    be inverted, a comparison where settled sats were matched. -/
def impliedNeeds (implied : Implied F) : List Need :=
  [⟨"implied_volume", "sats", !decide (implied.inverted = 0 ∧ implied.notInvertible > 0)⟩,
    ⟨"with_fee_volume", "sats", decide (implied.withFeeOrders > 0)⟩,
    ⟨"implied_vs_observed", "ratio", decide (implied.matchedObservedSats > 0) && A.isFinite
      (A.sub (A.div (A.ofInt (A.round implied.matchedVolume))
        (A.ofInt implied.matchedObservedSats)) (A.ofInt 1))⟩]

/-- The shares of the two sides among the disputes opened by a known one. -/
def initiatorNeeds (data : DisputeData) (window : Window) : List Need :=
  let opened := data.disputes.filter fun dispute => window.contains dispute.openedAt
  let buyers := opened.countP fun dispute => dispute.initiator == some .buyer
  let known := opened.countP fun dispute => dispute.initiator.isSome
  [⟨"initiator.buyer", "ratio", rated A buyers known⟩,
    ⟨"initiator.seller", "ratio", decide (known > 0) && A.isFinite
      (A.sub (A.ofInt 1) (A.div (A.ofInt buyers) (A.ofInt known)))⟩]

/-- The disputes resolved in a window. -/
def resolvedIn (data : DisputeData) (window : Window) : List Dispute :=
  data.disputes.filter fun dispute => dispute.resolvedAt.any window.contains

/-- The share of each outcome among the disputes resolved. -/
def outcomeNeeds (data : DisputeData) (window : Window) : List Need :=
  DisputeStatus.terminal.map fun status => ⟨"outcome." ++ status.asKey, "ratio",
    rated A ((resolvedIn data window).countP fun dispute => dispute.outcome == some status)
      (resolvedIn data window).length⟩

end Conditions

namespace Family

/-- What each figure of a family's windowed part needs of the window. -/
def needs (A : Floats F) (data : Data F) (window : Window) : Family → List Need
  | .activity =>
      let current := Counts.over data.orders window
      let previous := Counts.over data.orders window.previous
      let abandoned := data.orders.countP fun order => window.contains order.createdAt
        && (order.status == .canceled && order.takenAt.isNone)
      [.count "created", .count "completed", .count "canceled",
        ⟨"completion_rate", "ratio",
          rated A current.completed (current.completed + current.canceled)⟩,
        ⟨"abandonment_rate", "ratio", rated A abandoned current.created⟩,
        ⟨"created_delta", "ratio", grown A current.created previous.created⟩,
        ⟨"completed_delta", "ratio", grown A current.completed previous.completed⟩]
  | .volume =>
      fixedNeeds A data.orders window
        ++ ((Groups.groups Order.fiatCode (completedIn data.orders window)).flatMap fun group =>
          fiatNeeds A group.1 (group.2.filterMap Order.fiatAmount)
            (group.2.map Order.amountSats))
        ++ data.priced.elim [] fun priced => convertedNeeds A priced.code
          (Converted.convert A data.orders window priced.book priced.code)
  | .devFees =>
      let latencies := spans data.fees.fees (Fee.span window)
      let owed := (data.fees.settlements.filter fun settlement =>
        window.contains settlement.successAt).filter fun settlement =>
          settlement.chargesFee == some true
      [⟨"total_sats", "sats", true⟩, .count "paid",
        ⟨"coverage", "ratio", rated A (owed.countP Settlement.hasFee) owed.length⟩,
        ⟨"latency_p50", "seconds", ranked A latencies (p50 A)⟩,
        ⟨"latency_p90", "seconds", ranked A latencies (p90 A)⟩,
        .count "duplicates", .count "orphans"]
        ++ data.devFeePct.elim [] fun assumption => impliedNeeds A
          (Implied.summarise A data.fees window assumption.share)
  | .disputes =>
      let opened := data.disputes.disputes.filter fun dispute =>
        window.contains dispute.openedAt
      let taken := data.disputes.taken.countP fun order => window.contains order.leftPendingAt
      let resolutions := spans data.disputes.disputes (Dispute.span window)
      [.count "opened"]
        ++ (DisputeStatus.all.map fun status => .count ("status." ++ status.asKey))
        ++ initiatorNeeds A data.disputes window
        ++ [⟨"rate", "ratio", rated A opened.length taken⟩, .count "resolved"]
        ++ outcomeNeeds A data.disputes window
        ++ [⟨"resolution_p50", "seconds", ranked A resolutions (p50 A)⟩,
          ⟨"resolution_p90", "seconds", ranked A resolutions (p90 A)⟩]

/-- What the figure of a name needs, where the block has it. -/
def need (A : Floats F) (data : Data F) (window : Window) (family : Family) (name : String) :
    Option Need :=
  (family.needs A data window).find? fun need => need.name == name

end Family

/-! ## The units of a block -/

section Units

variable (A : Floats F)

/-- A metric's name, and the unit it is shown with. -/
def Metric.declared (m : Metric F) : String × String := (m.name, (m.value.normalised A).unit)

@[simp] theorem Value.unit_ofRatio (x : F) :
    ((Value.ofRatio A x).normalised A).unit = if A.isFinite x then "ratio" else "missing" := by
  rw [Value.ofRatio]
  cases h : A.isFinite x with
  | true => simp [Value.normalised, Value.unit, h]
  | false => rfl

@[simp] theorem Value.unit_ofFiat (x : F) (code : String) :
    ((Value.ofFiat A x code).normalised A).unit = if A.isFinite x then "fiat" else "missing" := by
  rw [Value.ofFiat]
  cases h : A.isFinite x with
  | true => simp [Value.normalised, Value.unit, h]
  | false => rfl

/-- A value that may be missing has its unit where it is there. -/
theorem Value.unit_elim {T : Type} (value : Option T) {f : T → Value F} {p : T → Bool}
    {unit : String} (h : ∀ x, ((f x).normalised A).unit = if p x then unit else "missing") :
    ((value.elim .missing f).normalised A).unit = if value.any p then unit else "missing" := by
  cases value with
  | none => rfl
  | some x => exact h x

/-- Likewise where nothing else is asked of it. -/
theorem Value.unit_elim_some {T : Type} (value : Option T) {f : T → Value F} {unit : String}
    (h : ∀ x, ((f x).normalised A).unit = unit) :
    ((value.elim .missing f).normalised A).unit
      = if value.isSome then unit else "missing" := by
  cases value with
  | none => rfl
  | some x => exact h x

@[simp] theorem Metric.declared_observed (name : String) (value : Value F) :
    (Metric.observed name value).declared A = (name, (value.normalised A).unit) := rfl

@[simp] theorem Metric.declared_inferred (name error : String) (value : Value F) :
    (Metric.inferred name value error).declared A = (name, (value.normalised A).unit) := rfl

@[simp] theorem declared_count (scope name : String) (n : Nat) :
    (count scope name n : Metric F).declared A = (dotted scope name, "count") := rfl

@[simp] theorem declared_ratioMetric (scope name : String) (value : Option F) :
    (ratioMetric A scope name value).declared A
      = (dotted scope name, if value.any A.isFinite then "ratio" else "missing") :=
  congrArg (Prod.mk _) (Value.unit_elim A value (Value.unit_ofRatio A))

@[simp] theorem declared_satsMetric (scope name : String) (value : Option Int) :
    (satsMetric scope name value : Metric F).declared A
      = (dotted scope name, if value.isSome then "sats" else "missing") :=
  congrArg (Prod.mk _) (Value.unit_elim_some A value (f := .sats) fun _ => rfl)

@[simp] theorem declared_secondsMetric (scope name : String) (value : Option Int) :
    (secondsMetric scope name value : Metric F).declared A
      = (dotted scope name, if value.isSome then "seconds" else "missing") :=
  congrArg (Prod.mk _) (Value.unit_elim_some A value (f := .seconds) fun _ => rfl)

end Units

/-! ## A block, figure by figure -/

section Blocks

variable (A : Floats F)

theorem any_ratio (numerator denominator : Nat) :
    (ratio A numerator denominator).any A.isFinite = rated A numerator denominator := by
  rw [ratio, rated]
  by_cases h : denominator > 0
  · rw [if_pos h, decide_eq_true h]
    rfl
  · rw [if_neg h, decide_eq_false h]
    rfl

theorem any_growth (current previous : Nat) :
    (growth A current previous).any A.isFinite = grown A current previous := by
  rw [growth, grown]
  by_cases h : previous > 0
  · rw [if_pos h, decide_eq_true h]
    rfl
  · rw [if_neg h, decide_eq_false h]
    rfl

theorem isSome_sumSats (sats : List Int) : (sumSats sats).isSome = fits sats := by
  rw [sumSats, fits]
  split
  · rename_i h
    exact (decide_eq_true h).symm
  · rename_i h
    exact (decide_eq_false h).symm

theorem isSome_meanSats (sizes : List Int) : (meanSats sizes).isSome = averaged sizes := by
  rw [meanSats, averaged]
  cases sizes.isEmpty with
  | true => rfl
  | false =>
      dsimp only
      rw [if_neg Bool.false_ne_true]
      split
      · rename_i h
        exact (decide_eq_true h).symm
      · rename_i h
        exact (decide_eq_false h).symm

theorem isSome_percentileInt (samples : List Int) (p : F) :
    (percentileInt A samples p).isSome = ranked A samples.length p := by
  have hrank : 1 ≤ rank A samples.length p := le_max_right _ _
  rw [percentileInt_eq, ranked, Bool.eq_iff_iff, decide_eq_true_iff, isSome_getElem?,
    List.length_mergeSort]
  omega

theorem isSome_max (sizes : List Int) : sizes.max?.isSome = !sizes.isEmpty := by
  cases sizes with
  | nil => rfl
  | cons size rest => rfl

theorem declared_fiatMetrics (code : String) (amounts : List F) (sats : List Int) :
    (Volume.fiatMetrics A "volume" code (fiatVolume A amounts sats)).map (Metric.declared A)
      = (fiatNeeds A code amounts sats).map (Need.declared .volume) := by
  have hfigure : ∀ pick : FiatFigures F → F,
      (((fiatVolume A amounts sats).figures.elim (.missing : Value F) fun figures =>
        Value.ofFiat A (pick figures) code).normalised A).unit
      = if (fiatVolume A amounts sats).figures.any fun figures => A.isFinite (pick figures) then
          "fiat" else "missing" :=
    fun pick => Value.unit_elim A _ fun figures => Value.unit_ofFiat A (pick figures) code
  have hsats : (((sumSats sats).elim (.missing : Value F) .sats).normalised A).unit
      = if fits sats then "sats" else "missing" := by
    rw [← isSome_sumSats]
    exact Value.unit_elim_some A _ fun _ => rfl
  have hcount : ∀ n : Nat, ((Value.count n : Value F).normalised A).unit = "count" :=
    fun _ => rfl
  simp only [Volume.fiatMetrics, fiatNeeds, List.map_cons, List.map_nil,
    Metric.declared_observed, Need.declared_mk, Need.declared_count, hfigure, hcount, fiatName,
    Family.scope]
  simp only [fiatVolume, hsats]

theorem declared_sizes (orders : List (Order F)) (window : Window) :
    ((sizeBuckets.zip (Volume.summarise A orders window).buckets).map fun filed =>
        (count "volume" ("size." ++ filed.1.1) filed.2 : Metric F)).map (Metric.declared A)
      = (sizeBuckets.map fun bucket => Need.count ("size." ++ bucket.1)).map
          (Need.declared .volume) := by
  have hlen : sizeBuckets.length ≤ (Volume.summarise A orders window).buckets.length :=
    le_of_eq (length_filed _ [0, 0, 0, 0, 0]).symm
  conv_rhs => rw [← List.map_fst_zip hlen]
  rw [List.map_map, List.map_map, List.map_map]
  rfl

theorem declared_convertedMetrics (converted : Converted F) :
    (Converted.metrics A "volume" converted).map (Metric.declared A)
      = (convertedNeeds A converted.code converted).map (Need.declared .volume) := by
  have hsats := Value.unit_elim_some A converted.unpricedSats (f := .sats) fun _ => rfl
  have hage := Value.unit_elim_some A converted.rateAgeMaxSecs (f := .seconds) fun _ => rfl
  have hcount : ((Value.count converted.priced : Value F).normalised A).unit = "count" := rfl
  simp only [Converted.metrics, convertedNeeds, List.map_cons, List.map_nil,
    Metric.declared_inferred, Need.declared_mk, Need.declared_count, hsats, hage, hcount,
    convertedName, Family.scope]
  refine List.cons_eq_cons.mpr ⟨Prod.ext rfl ?_, rfl⟩
  cases converted.total with
  | none => rfl
  | some total =>
      by_cases h : converted.priced > 0 ∨ converted.unpriced + converted.unusable = 0
      · simp only [if_pos h, decide_eq_true h, Value.unit_ofFiat, Option.any_some, Bool.true_and]
      · simp only [if_neg h, decide_eq_false h, Option.any_some, Bool.false_and]
        rfl

theorem declared_impliedMetrics (implied : Implied F) :
    (Implied.metrics A "dev_fees" implied).map (Metric.declared A)
      = (impliedNeeds A implied).map (Need.declared .devFees) := by
  have hvolume : (((Implied.volumeSats A implied).elim (.missing : Value F) .sats).normalised
      A).unit = if !decide (implied.inverted = 0 ∧ implied.notInvertible > 0) then "sats"
        else "missing" := by
    rw [Implied.volumeSats]
    by_cases h : implied.inverted = 0 ∧ implied.notInvertible > 0
    · rw [if_pos h, decide_eq_true h]
      rfl
    · rw [if_neg h, decide_eq_false h]
      rfl
  have hsettled : implied.withFeeVolumeSats.isSome = decide (implied.withFeeOrders > 0) := by
    rw [Implied.withFeeVolumeSats]
    by_cases h : implied.withFeeOrders > 0
    · rw [if_pos h, decide_eq_true h]
      rfl
    · rw [if_neg h, decide_eq_false h]
      rfl
  have hcompared : (Implied.impliedVsObserved A implied).any A.isFinite
      = (decide (implied.matchedObservedSats > 0) && A.isFinite
        (A.sub (A.div (A.ofInt (A.round implied.matchedVolume))
          (A.ofInt implied.matchedObservedSats)) (A.ofInt 1))) := by
    rw [Implied.impliedVsObserved]
    by_cases h : implied.matchedObservedSats > 0
    · rw [if_pos h, decide_eq_true h]
      rfl
    · rw [if_neg h, decide_eq_false h]
      rfl
  have hratio := Value.unit_elim A (Implied.impliedVsObserved A implied) (Value.unit_ofRatio A)
  simp only [Implied.metrics, impliedNeeds, List.map_cons, List.map_nil, declared_satsMetric,
    hsettled]
  simp only [Metric.declared_inferred, hvolume, hratio, hcompared, Need.declared_mk,
    Family.scope]

end Blocks

namespace Family

variable {A : Floats F} {data : Data F} {window : Window} {now : Int}

theorem declared_activity :
    (Family.activity.windowed A data window now).map (Metric.declared A)
      = (Family.activity.needs A data window).map (Need.declared .activity) := by
  simp only [windowed, datedMetrics, summarise, needs, List.map_cons, List.map_nil,
    declared_count, declared_ratioMetric, Need.declared_count, Need.declared_mk, any_ratio,
    any_growth, scope]

theorem declared_fixedMetrics (A : Floats F) (orders : List (Order F)) (window : Window) :
    (Volume.fixedMetrics "volume" (Volume.summarise A orders window)).map (Metric.declared A)
      = (fixedNeeds A orders window).map (Need.declared .volume) := by
  rw [Volume.fixedMetrics, List.map_append, List.map_append, declared_sizes, fixedNeeds,
    List.map_append, List.map_append]
  simp only [Volume.summarise, List.map_cons, List.map_nil, declared_count,
    declared_satsMetric, Need.declared_count, Need.declared_mk, isSome_sumSats, isSome_meanSats,
    isSome_percentileInt, isSome_max, List.length_map, scope]

theorem declared_volume :
    (Family.volume.windowed A data window now).map (Metric.declared A)
      = (Family.volume.needs A data window).map (Need.declared .volume) := by
  have hfiat : ((Volume.summarise A data.orders window).fiat.flatMap fun entry =>
        Volume.fiatMetrics A "volume" entry.1 entry.2).map (Metric.declared A)
      = ((Groups.groups Order.fiatCode (completedIn data.orders window)).flatMap fun group =>
          fiatNeeds A group.1 (group.2.filterMap Order.fiatAmount)
            (group.2.map Order.amountSats)).map (Need.declared .volume) := by
    rw [List.map_flatMap, List.map_flatMap, Volume.summarise, List.flatMap_map]
    exact List.flatMap_congr fun group _ => declared_fiatMetrics A group.1 _ _
  have hconverted : (data.priced.elim [] fun priced => Converted.metrics A "volume"
        (Converted.convert A data.orders window priced.book priced.code)).map
          (Metric.declared A)
      = (data.priced.elim [] fun priced => convertedNeeds A priced.code
          (Converted.convert A data.orders window priced.book priced.code)).map
            (Need.declared .volume) := by
    cases data.priced with
    | none => rfl
    | some priced =>
        rw [Option.elim_some, Option.elim_some, declared_convertedMetrics, convert_code]
  rw [windowed, Family.metrics, Volume.metrics, List.map_append, List.map_append,
    declared_fixedMetrics, hfiat, hconverted, needs, List.map_append, List.map_append]

theorem declared_devFees :
    (Family.devFees.windowed A data window now).map (Metric.declared A)
      = (Family.devFees.needs A data window).map (Need.declared .devFees) := by
  have himplied : (data.devFeePct.elim [] fun assumption => Implied.metrics A "dev_fees"
        (Implied.summarise A data.fees window assumption.share)).map (Metric.declared A)
      = (data.devFeePct.elim [] fun assumption => impliedNeeds A
          (Implied.summarise A data.fees window assumption.share)).map
            (Need.declared .devFees) := by
    cases data.devFeePct with
    | none => rfl
    | some assumption => exact declared_impliedMetrics A _
  obtain ⟨hp50, hp90⟩ := DevFees.latency_eq A data.fees window
  rw [windowed, Family.metrics, List.map_append, himplied, needs, List.map_append,
    DevFees.metrics, hp50, hp90]
  simp only [DevFees.summarise, List.map_cons, List.map_nil, declared_count,
    declared_ratioMetric, declared_secondsMetric, Metric.declared_observed, Need.declared_count,
    Need.declared_mk, any_ratio, isSome_percentileInt, length_lengths, scope]
  rfl

/-- The shares of the outcomes are rated among the resolved. -/
theorem declared_outcomes :
    (DisputeStatus.terminal.zipIdx.map fun entry => ratioMetric A "disputes"
        ("outcome." ++ entry.1.asKey)
        ((Disputes.summarise A data.disputes window now).outcome.bind fun shares =>
          shares[entry.2]?)).map (Metric.declared A)
      = (outcomeNeeds A data.disputes window).map (Need.declared .disputes) := by
  conv_rhs => rw [outcomeNeeds, ← List.zipIdx_map_fst 0 DisputeStatus.terminal]
  rw [List.map_map, List.map_map, List.map_map]
  refine List.map_congr_left fun entry hentry => ?_
  obtain ⟨status, i⟩ := entry
  have hat : DisputeStatus.terminal[i]? = some status :=
    List.mk_mem_zipIdx_iff_getElem?.mp hentry
  simp only [Function.comp_apply, declared_ratioMetric, Need.declared_mk, scope]
  have hrated : ((Disputes.summarise A data.disputes window now).outcome.bind fun shares =>
      shares[i]?).any A.isFinite
        = rated A ((resolvedIn data.disputes window).countP fun dispute =>
            dispute.outcome == some status) (resolvedIn data.disputes window).length := by
    have houtcome : (Disputes.summarise A data.disputes window now).outcome
        = if (resolvedIn data.disputes window).isEmpty then none
          else some (DisputeStatus.terminal.map fun status =>
            A.div (A.ofInt ((resolvedIn data.disputes window).countP fun dispute =>
              dispute.outcome == some status))
                (A.ofInt (resolvedIn data.disputes window).length)) :=
      rfl
    rw [houtcome, rated]
    cases hresolved : resolvedIn data.disputes window with
    | nil => rfl
    | cons dispute rest =>
        have hsome : decide ((dispute :: rest).length > 0) = true := rfl
        rw [hsome, Bool.true_and, List.isEmpty_cons, if_neg Bool.false_ne_true,
          Option.bind_some, List.getElem?_map, hat]
        rfl
  rw [hrated]

theorem declared_disputes :
    (Family.disputes.windowed A data window now).map (Metric.declared A)
      = (Family.disputes.needs A data window).map (Need.declared .disputes) := by
  obtain ⟨hp50, hp90⟩ := Disputes.resolution_eq A data.disputes window now
  have hseller : ∀ buyers known : Nat, ((ratio A buyers known).map fun buyer =>
      A.sub (A.ofInt 1) buyer).any A.isFinite
        = (decide (known > 0) && A.isFinite
          (A.sub (A.ofInt 1) (A.div (A.ofInt buyers) (A.ofInt known)))) := by
    intro buyers known
    rw [ratio]
    by_cases h : known > 0
    · rw [if_pos h, decide_eq_true h]
      rfl
    · rw [if_neg h, decide_eq_false h]
      rfl
  have hstatus : (Disputes.statusMetrics "disputes"
        (Disputes.summarise A data.disputes window now)).map (Metric.declared A)
      = (DisputeStatus.all.map fun status => Need.count ("status." ++ status.asKey)).map
          (Need.declared .disputes) := rfl
  have hinitiator : (Disputes.initiatorMetrics A "disputes"
        (Disputes.summarise A data.disputes window now)).map (Metric.declared A)
      = (initiatorNeeds A data.disputes window).map (Need.declared .disputes) := by
    simp only [Disputes.initiatorMetrics, Disputes.summarise, initiatorNeeds, List.map_cons,
      List.map_nil, declared_ratioMetric, Need.declared_mk, any_ratio, hseller, scope]
  have hrate : ([ratioMetric A "disputes" "rate"
        (Disputes.summarise A data.disputes window now).rate,
      count "disputes" "resolved"
        (Disputes.summarise A data.disputes window now).resolved] : List (Metric F)).map
          (Metric.declared A)
      = [("disputes.rate", if rated A (data.disputes.disputes.filter fun dispute =>
          window.contains dispute.openedAt).length (data.disputes.taken.countP fun order =>
            window.contains order.leftPendingAt) then "ratio" else "missing"),
        ("disputes.resolved", "count")] := by
    simp only [Disputes.summarise, List.map_cons, List.map_nil, declared_count,
      declared_ratioMetric, any_ratio]
    rfl
  have hresolution : ([secondsMetric "disputes" "resolution_p50"
        (percentileInt A (lengths data.disputes.disputes (Dispute.span window)) (p50 A)),
      secondsMetric "disputes" "resolution_p90"
        (percentileInt A (lengths data.disputes.disputes (Dispute.span window)) (p90 A))]
        : List (Metric F)).map (Metric.declared A)
      = [("disputes.resolution_p50", if ranked A (spans data.disputes.disputes
          (Dispute.span window)) (p50 A) then "seconds" else "missing"),
        ("disputes.resolution_p90", if ranked A (spans data.disputes.disputes
          (Dispute.span window)) (p90 A) then "seconds" else "missing")] := by
    simp only [List.map_cons, List.map_nil, declared_secondsMetric, isSome_percentileInt,
      length_lengths]
    rfl
  rw [windowed, Disputes.datedMetrics, hp50, hp90, needs]
  simp only [List.map_append, hstatus, hinitiator, hrate, hresolution]
  exact congrArg₂ _ (congrArg₂ _ rfl declared_outcomes) rfl

/-- **A BLOCK SHOWS ITS NEEDS**: each figure under its name, with its unit where what it
    needs is met. -/
theorem declared_windowed (family : Family) :
    (family.windowed A data window now).map (Metric.declared A)
      = (family.needs A data window).map (Need.declared family) := by
  cases family with
  | activity => exact declared_activity
  | volume => exact declared_volume
  | devFees => exact declared_devFees
  | disputes => exact declared_disputes

/-- **WHAT IS MEASURED IS DECLARED BY ITS NEED.** -/
theorem declared_measure (family : Family) {name : String}
    (h : isPlottable (dotted family.scope name) = true) :
    (measure A data window now (dotted family.scope name)).map (Metric.declared A)
      = (family.need A data window name).map (Need.declared family) := by
  have hmap : ∀ l : List (Metric F), (l.find? fun m => m.name == dotted family.scope name).map
      (Metric.declared A) = (l.map (Metric.declared A)).find? fun declared =>
        declared.1 == dotted family.scope name := by
    intro l
    rw [List.find?_map]
    rfl
  rw [measure_eq family h, hmap, declared_windowed, List.find?_map, need]
  congr 1
  refine congrArg (fun p => List.find? p _) (funext fun need => ?_)
  rw [Function.comp_apply, Need.declared, Bool.eq_iff_iff, beq_iff_eq, beq_iff_eq, dotted_inj]

end Family

/-! ## One name, one unit -/

/-- A figure's name and its unit, whether or not it has a value. -/
def Need.kind (need : Need) : String × String := (need.name, need.unit)

/-- The units of a currency's figures. -/
def fiatUnits : List (String × String) :=
  [("total", "fiat"), ("orders", "count"), ("sats", "sats"), ("completed", "count"),
    ("ticket_avg", "fiat"), ("ticket_p50", "fiat"), ("ticket_p90", "fiat")]

/-- The unit of one name does not depend on which window of the two it is looked up in,
    where the two list the same units. -/
theorem unit_eq_of_kinds {needs needs' : List Need} (h : needs.map Need.kind = needs'.map Need.kind)
    {name : String} {need need' : Need}
    (hneed : needs.find? (fun need => need.name == name) = some need)
    (hneed' : needs'.find? (fun need => need.name == name) = some need') :
    need.unit = need'.unit := by
  have hfind : ∀ l : List Need, (l.find? fun need => need.name == name).map Need.kind
      = (l.map Need.kind).find? fun kind => kind.1 == name := by
    intro l
    rw [List.find?_map]
    rfl
  have hkinds : some need.kind = some need'.kind := by
    rw [← Option.map_some, ← hneed, hfind, h, ← hfind, hneed', Option.map_some]
  exact congrArg Prod.snd (Option.some.inj hkinds)

theorem kind_of_fiatNeeds {A : Floats F} {code : String} {amounts : List F} {sats : List Int}
    {need : Need} (h : need ∈ fiatNeeds A code amounts sats) :
    ∃ word ∈ fiatUnits, need.kind = (fiatName code word.1, word.2) := by
  have hkinds : (fiatNeeds A code amounts sats).map Need.kind
      = fiatUnits.map fun word => (fiatName code word.1, word.2) := rfl
  obtain ⟨word, hword, heq⟩ := List.mem_map.mp (hkinds ▸ List.mem_map_of_mem h)
  exact ⟨word, hword, heq.symm⟩

/-- A currency's figure names its word, and the word its unit. -/
theorem fiatUnit_inj {code code' : String} {word word' : String × String}
    (hword : word ∈ fiatUnits) (hword' : word' ∈ fiatUnits)
    (h : fiatName code word.1 = fiatName code' word'.1) : word.2 = word'.2 := by
  have hflags : ∀ word ∈ fiatUnits, ∃ flag, (word.1, flag) ∈ fiatWords := by decide
  obtain ⟨flag, hflag⟩ := hflags word hword
  obtain ⟨flag', hflag'⟩ := hflags word' hword'
  have hsame : word.1 = word'.1 := (fiatName_inj hflag hflag' h).2
  have hunits : ∀ word ∈ fiatUnits, ∀ word' ∈ fiatUnits, word.1 = word'.1 → word.2 = word'.2 := by
    decide
  exact hunits word hword word' hword' hsame

namespace Family

variable {A : Floats F} {data : Data F} {window window' : Window}

/-- The figures of a volume that are not a currency's. -/
def plainNeeds (A : Floats F) (data : Data F) (window : Window) : List Need :=
  fixedNeeds A data.orders window
    ++ data.priced.elim [] fun priced => convertedNeeds A priced.code
      (Converted.convert A data.orders window priced.book priced.code)

theorem kinds_plainNeeds :
    (plainNeeds A data window).map Need.kind = (plainNeeds A data window').map Need.kind := by
  rw [plainNeeds, plainNeeds]
  cases data.priced with
  | none => rfl
  | some priced => rfl

theorem plainNeeds_ne_fiat {need : Need} (h : need ∈ plainNeeds A data window)
    (code word : String) : need.name ≠ fiatName code word := by
  have hfixed : (fixedNeeds A data.orders window).map Need.name = volumeFigures.map Prod.fst :=
    rfl
  have hconverted : (data.priced.elim [] fun priced => convertedNeeds A priced.code
      (Converted.convert A data.orders window priced.book priced.code)).map Need.name
        = (convertedFigures data).map Prod.fst := by
    rw [convertedFigures]
    cases data.priced with
    | none => rfl
    | some priced => rfl
  obtain ⟨figure, hfigure, hname⟩ : ∃ figure, (figure ∈ volumeFigures
      ∨ figure ∈ convertedFigures data) ∧ figure.1 = need.name := by
    rcases List.mem_append.mp h with hmem | hmem
    · obtain ⟨figure, hfigure, hname⟩ := List.mem_map.mp (hfixed ▸ List.mem_map_of_mem hmem)
      exact ⟨figure, .inl hfigure, hname⟩
    · obtain ⟨figure, hfigure, hname⟩ := List.mem_map.mp (hconverted ▸ List.mem_map_of_mem hmem)
      exact ⟨figure, .inr hfigure, hname⟩
  exact hname ▸ other_ne_fiat data hfigure code word

/-- What is not among the others is a currency's. -/
theorem kind_of_needs {need : Need} (h : need ∈ Family.volume.needs A data window) :
    need ∈ plainNeeds A data window
      ∨ ∃ code, ∃ word ∈ fiatUnits, need.kind = (fiatName code word.1, word.2) := by
  rw [needs, List.mem_append, List.mem_append] at h
  rcases h with (hfixed | hfiat) | hconverted
  · exact .inl (List.mem_append_left _ hfixed)
  · obtain ⟨group, -, hgroup⟩ := List.mem_flatMap.mp hfiat
    exact .inr ⟨group.1, kind_of_fiatNeeds hgroup⟩
  · exact .inl (List.mem_append_right _ hconverted)

/-- A name no currency has is looked up among the others. -/
theorem need_plain {name : String} (h : ∀ code, ∀ word ∈ fiatUnits, name ≠ fiatName code word.1) :
    Family.volume.need A data window name
      = (plainNeeds A data window).find? fun need => need.name == name := by
  have hnone : ((Groups.groups Order.fiatCode (completedIn data.orders window)).flatMap
      fun group => fiatNeeds A group.1 (group.2.filterMap Order.fiatAmount)
        (group.2.map Order.amountSats)).find? (fun need => need.name == name) = none := by
    refine List.find?_eq_none.mpr fun need hmem heq => ?_
    obtain ⟨group, -, hgroup⟩ := List.mem_flatMap.mp hmem
    obtain ⟨word, hword, hkind⟩ := kind_of_fiatNeeds hgroup
    exact h group.1 word hword ((eq_of_beq heq).symm.trans (congrArg Prod.fst hkind))
  rw [need, needs, plainNeeds, List.find?_append, List.find?_append, hnone, Option.or_none,
    List.find?_append]

/-- **ONE NAME, ONE UNIT**, over every window. -/
theorem unit_eq {family : Family} {name : String} {need need' : Need}
    (h : family.need A data window name = some need)
    (h' : family.need A data window' name = some need') : need.unit = need'.unit := by
  cases family with
  | activity =>
      refine unit_eq_of_kinds ?_ h h'
      rfl
  | volume =>
      by_cases hfiat : ∃ code, ∃ word ∈ fiatUnits, name = fiatName code word.1
      · obtain ⟨code, word, hword, rfl⟩ := hfiat
        have hunit : ∀ {window : Window} {need : Need},
            Family.volume.need A data window (fiatName code word.1) = some need →
              need.unit = word.2 := by
          intro window need hneed
          have hname : need.name = fiatName code word.1 := eq_of_beq
            (List.find?_some (p := fun need : Need => need.name == fiatName code word.1) hneed)
          rcases kind_of_needs (List.mem_of_find?_eq_some hneed) with hplain | hkind
          · exact absurd hname (plainNeeds_ne_fiat hplain code word.1)
          · obtain ⟨code', word', hword', hkind⟩ := hkind
            have hsame := hname.symm.trans (congrArg Prod.fst hkind)
            exact (congrArg Prod.snd hkind).trans (fiatUnit_inj hword hword' hsame).symm
        rw [hunit h, hunit h']
      · have hplain : ∀ code, ∀ word ∈ fiatUnits, name ≠ fiatName code word.1 :=
          fun code word hword heq => hfiat ⟨code, word, hword, heq⟩
        rw [need_plain hplain] at h h'
        exact unit_eq_of_kinds kinds_plainNeeds h h'
  | devFees =>
      refine unit_eq_of_kinds ?_ h h'
      rw [needs, needs]
      cases data.devFeePct with
      | none => rfl
      | some assumption => rfl
  | disputes =>
      refine unit_eq_of_kinds ?_ h h'
      rfl

end Family

namespace Family

variable {A : Floats F} {data : Data F} {window : Window}

theorem unit_ne_of_units {needs : List Need} (h : "missing" ∉ needs.map Need.unit) :
    ∀ need ∈ needs, need.unit ≠ "missing" := by
  intro need hneed hunit
  exact h (hunit ▸ List.mem_map_of_mem hneed)

theorem plain_unit_ne_missing : ∀ need ∈ plainNeeds A data window, need.unit ≠ "missing" := by
  rw [plainNeeds]
  cases data.priced with
  | none => exact unit_ne_of_units (of_decide_eq_true rfl)
  | some priced => exact unit_ne_of_units (of_decide_eq_true rfl)

/-- A unit is never the word for having no value. -/
theorem unit_ne_missing {family : Family} :
    ∀ need ∈ family.needs A data window, need.unit ≠ "missing" := by
  cases family with
  | activity => exact unit_ne_of_units (of_decide_eq_true rfl)
  | volume =>
      intro need hneed
      rcases kind_of_needs hneed with hplain | ⟨code, word, hword, hkind⟩
      · exact plain_unit_ne_missing need hplain
      · have hwords : ∀ word ∈ fiatUnits, word.2 ≠ "missing" := by decide
        have hunit : need.unit = word.2 := congrArg Prod.snd hkind
        exact hunit ▸ hwords word hword
  | devFees =>
      rw [needs]
      cases data.devFeePct with
      | none => exact unit_ne_of_units (of_decide_eq_true rfl)
      | some assumption => exact unit_ne_of_units (of_decide_eq_true rfl)
  | disputes => exact unit_ne_of_units (of_decide_eq_true rfl)

/-- The needs are those of the family's figures. -/
theorem names_needs (family : Family) :
    (family.needs A data window).map Need.name
      = (family.figures data (completedCodes data window)).map Prod.fst := by
  have hneeds : ((family.windowed A data window 0).map (Metric.declared A)).map Prod.fst
      = ((family.needs A data window).map (Need.declared family)).map Prod.fst :=
    congrArg _ family.declared_windowed
  have hfigures : ((family.windowed A data window 0).map Metric.shape).map Prod.fst
      = ((family.figures data (completedCodes data window)).map family.named).map Prod.fst :=
    congrArg _ family.shape_windowed
  rw [List.map_map, List.map_map] at hneeds hfigures
  have hdotted : (family.needs A data window).map (dotted family.scope ∘ Need.name)
      = (family.figures data (completedCodes data window)).map
          (dotted family.scope ∘ Prod.fst) := hneeds.symm.trans hfigures
  rw [← List.map_map, ← List.map_map] at hdotted
  exact List.map_injective_iff.mpr (fun _ _ h => dotted_inj.mp h) hdotted

theorem exists_need_iff {family : Family} {name : String} :
    (∃ need, family.need A data window name = some need)
      ↔ ∃ figure ∈ family.figures data (completedCodes data window), figure.1 = name := by
  have hneed : (∃ need, family.need A data window name = some need)
      ↔ name ∈ (family.needs A data window).map Need.name := by
    rw [← Option.isSome_iff_exists, need, List.find?_isSome, List.mem_map]
    simp only [beq_iff_eq]
  rw [hneed, names_needs, List.mem_map]

end Family

end Stats

namespace Publish

open Stats (Data Family Floats Metric Value dotted)

variable {F : Type} {digest : String → String} {A : Floats F} {data : Data F}
  {coverage : Coverage} {snapshotId : String} {now : Int} {family : Family}
  {row span : Stats.Window}

/-! ## Columns that describe every row -/

/-- Every covered row that has begun: each plotted figure its family reports has a
    column, and a cell that is not null is a figure of the unit its column declares. -/
def Describes (A : Floats F) (family : Family) (data : Data F) (coverage : Coverage) (now : Int)
    (resolution : Resolution) (span : Stats.Window) (payload : SeriesPayload) : Prop :=
  ∀ (i : Nat) (cells : List Json.Value) (slot : String × Stats.Window),
    payload.rows[i]? = some cells → (rowsOf resolution span)[i]? = some slot →
    coverage.covers slot.2 = true → slot.2.from' < now →
    (∀ metric ∈ family.metrics A data slot.2 now, Stats.isPlottable metric.name = true →
      ∃ column ∈ payload.columns.tail, dotted family.scope column.name = metric.name)
      ∧ ∀ (j : Nat) (column : Column) (cell : Json.Value), payload.columns[j + 1]? = some column →
        cells[j + 1]? = some cell → cell ≠ .null →
        ∃ metric, Stats.measure A data slot.2 now (dotted family.scope column.name) = some metric
          ∧ cell = Publish.cell A metric.value ∧ unitOf A metric.value = column.unit

/-- The span accounts for a row: each plotted currency of a week completed an order in
    the span, and each plotted figure of the two has what it needs of the span where it
    has what it needs of the row. -/
structure Accounts (A : Floats F) (family : Family) (data : Data F) (resolution : Resolution)
    (row span : Stats.Window) : Prop where
  codes : resolution = .weekly → family = .volume → ∀ code ∈ Stats.completedCodes data row,
    Stats.plottedCode code = true → code ∈ Stats.completedCodes data span
  needs : ∀ name, Stats.isPlottable (dotted family.scope name) = true →
    ∀ need ∈ family.need A data row name, ∀ need' ∈ family.need A data span name,
      need.met = true → need'.met = true

/-- A column is named after its figure. -/
theorem dotted_stripScope (family : Family) (name : String) :
    dotted family.scope (stripScope (family.scope ++ ".") (dotted family.scope name))
      = dotted family.scope name := by
  have hname : (dotted family.scope name).toList
      = (family.scope ++ ".").toList ++ name.toList := String.toList_append
  have hstarts : Family.startsWith (dotted family.scope name) (family.scope ++ ".") = true := by
    rw [Family.startsWith, hname, List.isPrefixOf_iff_prefix]
    exact List.prefix_append _ _
  have hstrip : stripScope (family.scope ++ ".") (dotted family.scope name) = name := by
    rw [stripScope, if_pos hstarts, hname, List.drop_left, String.ofList_toList]
  rw [hstrip]

/-- A cell is null exactly where its figure has no value. -/
theorem cell_eq_null_iff {value : Value F} :
    cell A value = .null ↔ unitOf A value = "missing" := by
  rw [cell, unitOf]
  cases value.normalised A with
  | count n => simp [Stats.Value.int, Stats.Value.unit]
  | sats n => simp [Stats.Value.int, Stats.Value.unit]
  | ratio x => simp [Stats.Value.unit]
  | seconds n => simp [Stats.Value.int, Stats.Value.unit]
  | fiat x code => simp [Stats.Value.unit]
  | text s => simp [Stats.Value.unit]
  | missing => simp [Stats.Value.unit]

/-- What is plotted is measured as its need says. -/
theorem unitOf_measure {window : Stats.Window} {name : String}
    (h : Stats.isPlottable (dotted family.scope name) = true) :
    (Stats.measure A data window now (dotted family.scope name)).map
        (fun metric => unitOf A metric.value)
      = (family.need A data window name).map Stats.Need.shown := by
  have hdeclared : ((Stats.measure A data window now (dotted family.scope name)).map
        (Metric.declared A)).map Prod.snd
      = ((family.need A data window name).map (Stats.Need.declared family)).map Prod.snd :=
    congrArg _ (family.declared_measure h)
  rw [Option.map_map, Option.map_map] at hdeclared
  exact hdeclared

/-- What completed in a part of the span completed in it. -/
theorem completedCodes_within (hfrom : span.from' ≤ row.from') (huntil : row.until' ≤ span.until')
    {code : String} (h : code ∈ Stats.completedCodes data row) :
    code ∈ Stats.completedCodes data span := by
  rw [Stats.completedCodes, Groups.mem_keysOf, List.mem_map] at h ⊢
  obtain ⟨order, horder, rfl⟩ := h
  obtain ⟨hsuccess, hin⟩ := List.mem_filter.mp horder
  refine ⟨order, List.mem_filter.mpr ⟨hsuccess, ?_⟩, rfl⟩
  obtain ⟨settled, hsettled, hcontains⟩ := (Option.any_eq_true ..).mp hin
  obtain ⟨hlo, hhi⟩ := Stats.Window.contains_iff.mp hcontains
  refine (Option.any_eq_true ..).mpr ⟨settled, hsettled, Stats.Window.contains_iff.mpr ?_⟩
  exact ⟨hfrom.trans hlo, hhi.trans_le huntil⟩

/-- Every figure of a row is one of the span. -/
theorem catalogueOf_subset (h : family = .volume → ∀ code ∈ Stats.completedCodes data row,
      Stats.plottedCode code = true → code ∈ Stats.completedCodes data span) {name : String}
    (hname : name ∈ Stats.catalogueOf A family data row now) :
    name ∈ Stats.catalogueOf A family data span now := by
  obtain ⟨hplottable, figure, hfigure, rfl⟩ := mem_catalogueOf.mp hname
  refine mem_catalogueOf.mpr ⟨hplottable, ?_⟩
  by_cases hvolume : family = .volume
  · subst hvolume
    have hfound : (Family.volume.figures data (Stats.completedCodes data row)).find?
        (fun candidate => candidate.1 == figure.1) ≠ none := by
      intro hnone
      exact List.find?_eq_none.mp hnone figure hfigure (beq_self_eq_true _)
    have hkept := Stats.find_volume_mono data (h rfl) hplottable hfound
    obtain ⟨figure', hfigure'⟩ := Option.ne_none_iff_exists'.mp (hkept ▸ hfound)
    have hsame : figure'.1 = figure.1 := eq_of_beq
      (List.find?_some (p := fun candidate : String × Bool => candidate.1 == figure.1) hfigure')
    exact ⟨figure', List.mem_of_find?_eq_some hfigure', congrArg _ hsame.symm⟩
  · rw [Family.figures_of_ne_volume hvolume _ (Stats.completedCodes data span)] at hfigure
    exact ⟨figure, hfigure, rfl⟩

/-- The column of a figure of the catalogue, and the cell under it. -/
theorem column_and_cell {resolution : Resolution} {slot : String × Stats.Window} {j : Nat}
    {col : Column} {value : Json.Value}
    (hcol : (seriesPayload A family data resolution span coverage now).columns[j + 1]? = some col)
    (hcell : (rowOf A data family coverage now span slot)[j + 1]? = some value) :
    ∃ name, dotted family.scope name ∈ Stats.catalogueOf A family data span now
      ∧ col = column A family data span now (dotted family.scope name)
      ∧ value = cellOf A data coverage now slot.2 (dotted family.scope name) := by
  rw [columns_succ, Option.map_eq_some_iff] at hcol
  rw [rowOf_succ, Option.map_eq_some_iff] at hcell
  obtain ⟨name, hname, rfl⟩ := hcol
  obtain ⟨name', hname', rfl⟩ := hcell
  obtain rfl := Option.some.inj (hname.symm.trans hname')
  have hmem := List.mem_of_getElem? hname
  obtain ⟨-, figure, -, rfl⟩ := mem_catalogueOf.mp hmem
  exact ⟨figure.1, hmem, rfl, rfl⟩

/-- In a covered row that has begun a cell shows what is measured. -/
theorem cellOf_eq {slot : Stats.Window} (hcovers : coverage.covers slot = true)
    (hbegun : slot.from' < now) (name : String) :
    cellOf A data coverage now slot name
      = (Stats.measure A data slot now name).elim .null fun metric => cell A metric.value := by
  have hopen : (!coverage.covers slot || decide (slot.from' ≥ now)) = false := by
    simp [hcovers, hbegun]
  rw [cellOf, hopen, if_neg Bool.false_ne_true]

/-- The unit of a column is the one its need shows over the span. -/
theorem column_unit {name : String} (h : Stats.isPlottable (dotted family.scope name) = true)
    {need : Stats.Need} (hneed : family.need A data span name = some need) :
    (column A family data span now (dotted family.scope name)).unit = need.shown := by
  have hmeasured : (Stats.measure A data span now (dotted family.scope name)).map
      (fun metric => unitOf A metric.value) = _ := unitOf_measure h
  rw [hneed, Option.map_some, Option.map_eq_some_iff] at hmeasured
  obtain ⟨metric, hmetric, hunit⟩ := hmeasured
  rw [column, hmetric]
  exact hunit

/-- What is in the catalogue of a window has a need over it. -/
theorem exists_need {window : Stats.Window} {name : String}
    (h : dotted family.scope name ∈ Stats.catalogueOf A family data window now) :
    ∃ need, family.need A data window name = some need := by
  obtain ⟨-, figure, hfigure, hname⟩ := mem_catalogueOf.mp h
  exact Family.exists_need_iff.mpr ⟨figure, hfigure, (Family.dotted_inj.mp hname).symm⟩

theorem describes_of_accounts {resolution : Resolution}
    (hwithin : resolution ≠ .weekly → ∀ slot ∈ rowsOf resolution span,
      span.from' ≤ slot.2.from' ∧ slot.2.until' ≤ span.until')
    (h : ∀ slot ∈ rowsOf resolution span, coverage.covers slot.2 = true → slot.2.from' < now →
      Accounts A family data resolution slot.2 span) :
    Describes A family data coverage now resolution span
      (seriesPayload A family data resolution span coverage now) := by
  intro i cells slot hrow hslot hcovers hbegun
  rw [seriesPayload_rows, List.getElem?_map, hslot, Option.map_some] at hrow
  obtain rfl := Option.some.inj hrow
  have hmem := List.mem_of_getElem? hslot
  obtain ⟨hweek, hneeds⟩ := h slot hmem hcovers hbegun
  have hcodes : family = .volume → ∀ code ∈ Stats.completedCodes data slot.2,
      Stats.plottedCode code = true → code ∈ Stats.completedCodes data span := by
    intro hvolume code hcode hplotted
    by_cases hweekly : resolution = .weekly
    · exact hweek hweekly hvolume code hcode hplotted
    · obtain ⟨hfrom, huntil⟩ := hwithin hweekly slot hmem
      exact completedCodes_within hfrom huntil hcode
  refine ⟨fun metric hmetric hplottable => ?_, fun j col value hcol hcell hvalue => ?_⟩
  · have hlisted : metric.name ∈ Stats.catalogueOf A family data span now :=
      catalogueOf_subset hcodes
        (List.mem_filter.mpr ⟨List.mem_map_of_mem hmetric, hplottable⟩)
    refine ⟨_, List.mem_map_of_mem hlisted, ?_⟩
    obtain ⟨-, figure, -, hname⟩ := mem_catalogueOf.mp hlisted
    rw [hname]
    exact dotted_stripScope family figure.1
  · -- The cell has a value, so the row meets its need and with it the span does.
    obtain ⟨name, hlisted, rfl, rfl⟩ := column_and_cell hcol hcell
    have hplottable := (mem_catalogueOf.mp hlisted).1
    have hnamed : dotted family.scope
        (column A family data span now (dotted family.scope name)).name
          = dotted family.scope name := dotted_stripScope family name
    rw [cellOf_eq hcovers hbegun] at hvalue ⊢
    rw [hnamed]
    obtain ⟨need', hneed'⟩ := exists_need hlisted
    rw [column_unit hplottable hneed']
    have hmeasured : (Stats.measure A data slot.2 now (dotted family.scope name)).map
        (fun metric => unitOf A metric.value) = _ := unitOf_measure hplottable
    cases hm : Stats.measure A data slot.2 now (dotted family.scope name) with
    | none =>
        rw [hm] at hvalue
        exact absurd rfl hvalue
    | some metric =>
        rw [hm] at hvalue hmeasured
        refine ⟨metric, rfl, rfl, ?_⟩
        obtain ⟨need, hneed, hshown⟩ := Option.map_eq_some_iff.mp hmeasured.symm
        change need.shown = unitOf A metric.value at hshown
        have hunit : unitOf A metric.value ≠ "missing" := fun hmissing =>
          hvalue (cell_eq_null_iff.mpr hmissing)
        have hmet : need.met = true := by
          by_contra hunmet
          refine hunit (hshown.symm.trans ?_)
          rw [Stats.Need.shown, if_neg hunmet]
        have hmet' := hneeds name hplottable need hneed need' hneed' hmet
        rw [← hshown, Stats.Need.shown, Stats.Need.shown, if_pos hmet, if_pos hmet',
          Family.unit_eq hneed hneed']

/-- A figure with a value over a row is measured there, in its own unit. -/
theorem measure_of_met {window : Stats.Window} {name : String}
    (h : Stats.isPlottable (dotted family.scope name) = true) {need : Stats.Need}
    (hneed : family.need A data window name = some need) (hmet : need.met = true) :
    ∃ metric, Stats.measure A data window now (dotted family.scope name) = some metric
      ∧ unitOf A metric.value = need.unit := by
  have hmeasured : (Stats.measure A data window now (dotted family.scope name)).map
      (fun metric => unitOf A metric.value) = _ := unitOf_measure h
  rw [hneed, Option.map_some, Option.map_eq_some_iff] at hmeasured
  obtain ⟨metric, hmetric, hunit⟩ := hmeasured
  refine ⟨metric, hmetric, hunit.trans ?_⟩
  rw [Stats.Need.shown, if_pos hmet]

/-- A currency of a row has counts, and where they have a column the span has the
    currency. -/
theorem code_of_listed {resolution : Resolution} {window : Stats.Window}
    (hlisted : ∀ metric ∈ Family.volume.metrics A data window now,
      Stats.isPlottable metric.name = true →
        ∃ column ∈ (seriesPayload A .volume data resolution span coverage now).columns.tail,
          dotted Family.volume.scope column.name = metric.name) {code : String}
    (hcode : code ∈ Stats.completedCodes data window) (hplotted : Stats.plottedCode code = true) :
    code ∈ Stats.completedCodes data span := by
  have hword : (("completed", true) : String × Bool) ∈ Stats.fiatWords := by decide
  have hplottable : Stats.isPlottable (dotted Family.volume.scope
      (Stats.fiatName code "completed")) = true :=
    (Stats.isPlottable_fiat hword code).trans hplotted
  have hfound : (Family.volume.figures data (Stats.completedCodes data window)).find?
      (fun figure => figure.1 == Stats.fiatName code "completed")
        = some (Stats.fiatName code "completed", true) :=
    (Stats.find_volume_fiat data hword code _).trans (if_pos hcode)
  obtain ⟨metric, hmetric, -⟩ : ∃ m, Stats.measure A data window now (dotted
      Family.volume.scope (Stats.fiatName code "completed")) = some m
        ∧ m.value.isCount = true := measure_count hplottable hfound
  rw [Stats.measure, Family.of_dotted, Option.bind_some] at hmetric
  have hname : metric.name = dotted Family.volume.scope (Stats.fiatName code "completed") :=
    eq_of_beq (List.find?_some (p := fun candidate : Metric F =>
      candidate.name == dotted Family.volume.scope (Stats.fiatName code "completed")) hmetric)
  obtain ⟨col, hcol, hcolumn⟩ := hlisted metric (List.mem_of_find?_eq_some hmetric)
    (hname.symm ▸ hplottable)
  obtain ⟨name, hmem, rfl⟩ := List.mem_map.mp hcol
  obtain ⟨-, figure, hfigure, rfl⟩ := mem_catalogueOf.mp hmem
  have hsame : figure.1 = Stats.fiatName code "completed" :=
    Family.dotted_inj.mp ((dotted_stripScope .volume figure.1).symm.trans (hcolumn.trans hname))
  by_contra hmissing
  have hnone := (Stats.find_volume_fiat data hword code
    (Stats.completedCodes data span)).trans (if_neg hmissing)
  exact List.find?_eq_none.mp hnone figure hfigure (beq_iff_eq.mpr hsame)

/-- A figure with a value over a row is declared with its own unit, so the span has what
    it needs. -/
theorem met_of_declared {resolution : Resolution} {slot : String × Stats.Window}
    (hcovers : coverage.covers slot.2 = true) (hbegun : slot.2.from' < now)
    (hunits : ∀ (j : Nat) (column : Column) (cell : Json.Value),
      (seriesPayload A family data resolution span coverage now).columns[j + 1]? = some column →
      (rowOf A data family coverage now span slot)[j + 1]? = some cell → cell ≠ .null →
        ∃ metric, Stats.measure A data slot.2 now (dotted family.scope column.name) = some metric
          ∧ cell = Publish.cell A metric.value ∧ unitOf A metric.value = column.unit)
    {name : String} (hplottable : Stats.isPlottable (dotted family.scope name) = true)
    {need need' : Stats.Need} (hneed : family.need A data slot.2 name = some need)
    (hneed' : family.need A data span name = some need') (hmet : need.met = true) :
    need'.met = true := by
  obtain ⟨metric, hmetric, hunit⟩ : ∃ metric, Stats.measure A data slot.2 now
      (dotted family.scope name) = some metric ∧ unitOf A metric.value = need.unit :=
    measure_of_met hplottable hneed hmet
  have hpresent : unitOf A metric.value ≠ "missing" :=
    hunit ▸ Family.unit_ne_missing need (List.mem_of_find?_eq_some hneed)
  have hname : dotted family.scope name ∈ Stats.catalogueOf A family data span now := by
    obtain ⟨figure, hfigure, heq⟩ := Family.exists_need_iff.mp ⟨need', hneed'⟩
    exact mem_catalogueOf.mpr ⟨hplottable, figure, hfigure, congrArg _ heq.symm⟩
  obtain ⟨k, hk⟩ := List.mem_iff_getElem?.mp hname
  have hcell : cellOf A data coverage now slot.2 (dotted family.scope name)
      = cell A metric.value := by
    rw [cellOf_eq hcovers hbegun, hmetric]
    rfl
  obtain ⟨metric', hmetric', -, hdeclared⟩ := hunits k _ _
    ((columns_succ family resolution span k).trans (congrArg (Option.map _) hk))
    ((rowOf_succ family span slot k).trans (congrArg (Option.map _) hk))
    (fun hnull => hpresent (cell_eq_null_iff.mp (hcell ▸ hnull)))
  have hnamed : dotted family.scope
      (column A family data span now (dotted family.scope name)).name
        = dotted family.scope name := dotted_stripScope family name
  rw [hnamed, hmetric] at hmetric'
  cases hmetric'
  rw [column_unit hplottable hneed'] at hdeclared
  by_contra hunmet
  refine hpresent (hdeclared.trans ?_)
  rw [Stats.Need.shown, if_neg hunmet]

theorem accounts_of_describes {resolution : Resolution}
    (h : Describes A family data coverage now resolution span
      (seriesPayload A family data resolution span coverage now)) :
    ∀ slot ∈ rowsOf resolution span, coverage.covers slot.2 = true → slot.2.from' < now →
      Accounts A family data resolution slot.2 span := by
  intro slot hslot hcovers hbegun
  obtain ⟨i, hi⟩ := List.mem_iff_getElem?.mp hslot
  have hrow : (seriesPayload A family data resolution span coverage now).rows[i]?
      = some (rowOf A data family coverage now span slot) := by
    rw [seriesPayload_rows, List.getElem?_map, hi, Option.map_some]
  obtain ⟨hlisted, hunits⟩ := h i _ slot hrow hi hcovers hbegun
  constructor
  · rintro - rfl code hcode hplotted
    exact code_of_listed hlisted hcode hplotted
  · intro name hplottable need hneed need' hneed' hmet
    exact met_of_declared hcovers hbegun hunits hplottable hneed hneed' hmet

/-- **THE COLUMNS DESCRIBE EVERY ROW** exactly when the span accounts for each: of every
    published partition, a covered week that has begun has no plotted currency the span
    has not, and no such row has a figure with a value where the span's has none. -/
theorem columns_describe_iff {document : Document F}
    (hmem : document ∈ (Snapshot.compute digest A data coverage snapshotId now).documents)
    {report : Report} {slot : Partition} {scope : Option Scope} {payload : SeriesPayload}
    (haddress : document.address = .series report slot scope)
    (hpayload : document.envelope.payload = .series payload) :
    ∃ family, familyOf report = some family
      ∧ (Describes A family data coverage now slot.resolution slot.window payload
        ↔ ∀ row ∈ rowsOf slot.resolution slot.window, coverage.covers row.2 = true →
          row.2.from' < now → Accounts A family data slot.resolution row.2 slot.window) := by
  rcases Snapshot.mem_compute.mp hmem with ⟨_, _, rfl⟩ | ⟨_, family, _, hfamily, -, -, rfl⟩ |
    ⟨_, -, _, _, -, rfl⟩
  · cases haddress
  · cases haddress
    cases hpayload
    exact ⟨family, hfamily, accounts_of_describes, describes_of_accounts rowsOf_within⟩
  · cases haddress

/-! ## A week that runs into August -/

theorem february_described :
    ∃ family, familyOf .volume = some family
      ∧ (Describes .whole family oneOrder threeDays 1772323200 .daily february.window
          (Snapshot.seriesAnswer .whole oneOrder threeDays 1772323200 .volume february)
        ↔ ∀ row ∈ rowsOf .daily february.window, threeDays.covers row.2 = true →
          row.2.from' < 1772323200 →
            Accounts .whole family oneOrder .daily row.2 february.window) :=
  columns_describe_iff
    (february_listed oneOrder (show familyOf .volume = some .volume from rfl)) rfl rfl

/-- One order, settled in euros on the first of August. -/
def augustOrder : Data Int := { noData with orders := [settledOrder "EUR" 1785542460] }

/-- **THE EUROS OF THE WEEK HAVE NO COLUMN**: the week of July the 27th is in the
    partition of July, and its only order settled on the first of August. -/
theorem euros_without_column :
    Snapshot.seriesDocument id .whole augustOrder julyOn ⟨"2", 1788307200⟩ .volume .volume july
        ∈ (Snapshot.compute id .whole augustOrder julyOn "2" 1788307200).documents
      ∧ ¬ Describes .whole .volume augustOrder julyOn 1788307200 .weekly july.window
          (Snapshot.seriesAnswer .whole augustOrder julyOn 1788307200 .volume july) := by
  refine ⟨Snapshot.mem_compute.mpr (.inr (.inl ⟨.volume, .volume, july, rfl, by decide +kernel,
    by decide +kernel, rfl⟩)), fun hdescribes => ?_⟩
  have hweek : ("2026-W31", (⟨1785110400, 1785715200⟩ : Stats.Window))
      ∈ rowsOf .weekly july.window := by
    decide +kernel
  have haccounts := accounts_of_describes hdescribes _ hweek (by decide) (by decide)
  have hmissing : "EUR" ∉ Stats.completedCodes augustOrder july.window := by
    decide +kernel
  exact hmissing (haccounts.codes rfl rfl "EUR" (by decide +kernel) (by decide +kernel))

end Publish
