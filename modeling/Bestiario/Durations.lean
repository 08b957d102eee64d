import Bestiario.Joined
import Bestiario.Lib.Ranks
import Bestiario.Windowed

/-! # Durations

    Three families publish seconds: `timing`, `disputes` and `dev_fees`.  Each takes
    one clock from another, and neither clock is the archive's: events are stamped,
    and disputes are tagged, by whoever publishes them.

    `timing` drops a gap that is not longer than nothing, and a book entry that lies
    ahead of the clock; what it reports is a duration whatever the orders say.  A
    resolution and a fee's latency are subtracted as they come, and a percentile
    shows the one at its rank: it is a duration exactly when fewer samples than the
    rank ran backwards (`durations_iff`). -/

namespace Stats

open Wire Ranks

variable {F : Type}

/-! ## Timing, reported -/

/-- `timing::metrics`. -/
def Timing.metrics (A : Floats F) (scope : String) (timing : Timing) : List (Metric F) :=
  let funnel := timing.funnel
  [count scope "time_to_fill_samples" timing.timeToFillSamples,
    secondsMetric scope "time_to_fill_p50" timing.timeToFillP50,
    secondsMetric scope "time_to_fill_p90" timing.timeToFillP90,
    count scope "time_to_complete_samples" timing.timeToCompleteSamples,
    secondsMetric scope "time_to_complete_p50" timing.timeToCompleteP50,
    secondsMetric scope "time_to_complete_p90" timing.timeToCompleteP90,
    count scope "full_cycle_samples" timing.fullCycleSamples,
    secondsMetric scope "full_cycle_p50" timing.fullCycleP50,
    secondsMetric scope "full_cycle_p90" timing.fullCycleP90,
    count scope "time_to_cancel_samples" timing.timeToCancelSamples,
    secondsMetric scope "time_to_cancel_p50" timing.timeToCancelP50,
    secondsMetric scope "time_to_cancel_p90" timing.timeToCancelP90,
    count scope "book_size" timing.bookSize,
    secondsMetric scope "book_age_avg" timing.bookAgeAvg,
    count scope "funnel.created" funnel.created,
    count scope "funnel.taken" funnel.taken,
    ratioMetric A scope "funnel.taken_share" (ratio A funnel.taken funnel.created),
    count scope "funnel.completed" funnel.completed,
    count scope "funnel.canceled_taken" funnel.canceledTaken,
    count scope "funnel.canceled_untaken" funnel.canceledUntaken,
    ratioMetric A scope "funnel.canceled_untaken_share"
      (ratio A funnel.canceledUntaken funnel.created),
    count scope "funnel.expired_untaken" funnel.expiredUntaken,
    count scope "funnel.open" funnel.opened,
    count scope "unknown_origin" timing.unknownOrigin,
    count scope "regressed" timing.regressed]

/-! ## Figures that are durations -/

/-- Not a negative number of seconds. -/
def Metric.Lasting (metric : Metric F) : Prop := ∀ s, metric.value = .seconds s → 0 ≤ s

section Lasting

variable {A : Floats F} {scope name : String}

@[simp] theorem lasting_count {n : Nat} : (count scope name n : Metric F).Lasting := by
  intro s h
  cases h

@[simp] theorem lasting_ratioMetric {share : Option F} :
    (ratioMetric A scope name share).Lasting := by
  intro s h
  cases share with
  | none => cases h
  | some x =>
      have hratio : Value.ofRatio A x = .seconds s := h
      rw [Value.ofRatio] at hratio
      split at hratio
      · cases hratio
      · cases hratio

@[simp] theorem lasting_secondsMetric {length : Option Int} :
    (secondsMetric scope name length : Metric F).Lasting ↔ ∀ s ∈ length, 0 ≤ s := by
  constructor
  · rintro h s rfl
    exact h s rfl
  · intro h s hs
    cases length with
    | none => cases hs
    | some t =>
        cases hs
        exact h s rfl

theorem lasting_of_not_seconds {metric : Metric F} (h : ∀ s, metric.value ≠ .seconds s) :
    metric.Lasting :=
  fun s hs => absurd hs (h s)

end Lasting

/-- The rank of a percentile among so many samples, counted from one. -/
def rank (A : Floats F) (n : Nat) (p : F) : Nat := max (A.ceil (A.mul p (A.ofInt n))).toNat 1

/-- Every sample compares to itself, so a percentile is what stands at its rank. -/
theorem percentileInt_eq (A : Floats F) (samples : List Int) (p : F) :
    percentileInt A samples p
      = (samples.mergeSort fun a b => decide (a ≤ b))[rank A samples.length p - 1]? := by
  have hcompare : (samples.any fun s => !decide (s ≤ s)) = false := by
    simp
  rw [percentileInt, percentile, hcompare]
  rfl

/-- **A PERCENTILE IS NOT NEGATIVE** exactly when fewer samples than its rank are. -/
theorem percentileInt_nonneg_iff (A : Floats F) (samples : List Int) (p : F) :
    (∀ s ∈ percentileInt A samples p, 0 ≤ s)
      ↔ (samples.countP fun s => decide (s < 0)) < rank A samples.length p := by
  have hsorted : (samples.mergeSort fun a b => decide (a ≤ b)).Pairwise (· ≤ ·) := by
    have hpair := @List.pairwise_mergeSort Int (fun a b => decide (a ≤ b))
      (by intro a b c; simpa using le_trans) (by intro a b; simpa using le_total a b) samples
    exact hpair.imp fun h => of_decide_eq_true h
  have hcount := (List.mergeSort_perm samples fun a b => decide (a ≤ b)).countP_eq
    fun s : Int => decide (s < 0)
  have hrank : 1 ≤ rank A samples.length p := le_max_right _ _
  have hiff := forall_getElem?_iff 0 hsorted (rank A samples.length p - 1)
  rw [hcount] at hiff
  rw [percentileInt_eq]
  refine hiff.trans ?_
  omega

theorem percentileInt_nonneg {A : Floats F} {samples : List Int} (h : ∀ s ∈ samples, 0 ≤ s)
    (p : F) : ∀ s ∈ percentileInt A samples p, 0 ≤ s := by
  refine (percentileInt_nonneg_iff A samples p).mpr ?_
  have hnone : (samples.countP fun s => decide (s < 0)) = 0 :=
    List.countP_eq_zero.mpr fun s hs hneg => not_lt.mpr (h s hs) (of_decide_eq_true hneg)
  rw [hnone]
  exact Nat.lt_of_lt_of_le Nat.zero_lt_one (le_max_right _ _)

/-! ## Timing is always a duration -/

namespace Timing

variable {orders : List (Order F)} {window : Window} {now : Int}

theorem gaps_nonneg {start stop : Order F → Option Int} :
    ∀ length ∈ gaps orders window start stop, 0 ≤ length := by
  intro length hlength
  obtain ⟨gap, -, hgap⟩ := List.mem_filterMap.mp hlength
  have hlong := (Option.filter_eq_some_iff.mp hgap).2
  exact (of_decide_eq_true hlong).le

/-- An order on the book entered it no later than now. -/
theorem bookAge_nonneg {order : Order F} {age : Int} (h : bookAge order now = some age) :
    0 ≤ age := by
  rw [bookAge] at h
  split at h
  · cases h
  · obtain ⟨pending, hpending, hage⟩ := Option.bind_eq_some_iff.mp h
    have hbefore := of_decide_eq_true (Option.filter_eq_some_iff.mp hpending).2
    rw [checkedSub] at hage
    split at hage
    · cases hage
      omega
    · cases hage

theorem meanAge_nonneg {ages : List Int} (h : ∀ age ∈ ages, 0 ≤ age) :
    ∀ mean ∈ meanAge ages, 0 ≤ mean := by
  intro mean hmean
  have hsum : 0 ≤ ages.sum := List.sum_nonneg h
  rw [meanAge] at hmean
  split at hmean
  · cases hmean
  · dsimp only at hmean
    split at hmean
    · cases hmean
      exact Int.tdiv_nonneg hsum (Int.natCast_nonneg _)
    · cases hmean

/-- **TIMING REPORTS DURATIONS**, whatever the orders say. -/
theorem metrics_lasting (A : Floats F) (scope : String) (orders : List (Order F))
    (window : Window) (now : Int) :
    ∀ metric ∈ Timing.metrics A scope (summarise A orders window now), metric.Lasting := by
  have hages : ∀ age ∈ orders.filterMap fun order => bookAge order now, 0 ≤ age := by
    intro age hage
    obtain ⟨order, -, hbook⟩ := List.mem_filterMap.mp hage
    exact bookAge_nonneg hbook
  have hgaps : ∀ (start stop : Order F → Option Int) (p : F),
      ∀ s ∈ percentileInt A (gaps orders window start stop) p, 0 ≤ s :=
    fun start stop p => percentileInt_nonneg gaps_nonneg p
  simp only [Timing.metrics, List.forall_mem_cons, lasting_count, lasting_ratioMetric,
    lasting_secondsMetric, true_and]
  exact ⟨hgaps _ _ _, hgaps _ _ _, hgaps _ _ _, hgaps _ _ _, hgaps _ _ _, hgaps _ _ _,
    hgaps _ _ _, hgaps _ _ _, meanAge_nonneg hages, List.forall_mem_nil _⟩

end Timing

/-! ## Spans that run backwards -/

/-- From one clock back to an earlier one, as far as a word reaches; or so far ahead that
    the difference of the two comes out negative. -/
def Backward (start stop : Int) : Prop :=
  stop < start ∧ start - stop ≤ 2 ^ 63 ∨ 2 ^ 63 ≤ stop - start

instance (start stop : Int) : Decidable (Backward start stop) :=
  inferInstanceAs (Decidable (_ ∨ _))

theorem wrapI64_neg_iff {start stop : Int} (hstart : Load.Word start) (hstop : Load.Word stop) :
    wrapI64 (stop - start) < 0 ↔ Backward start stop := by
  obtain ⟨hlo, hhi⟩ := hstart
  obtain ⟨hlo', hhi'⟩ := hstop
  rw [wrapI64, BitVec.toInt_ofInt, Int.bmod, Backward]
  omega

section Spans

variable {α : Type} (xs : List α) (span : α → Option (Int × Int))

/-- How many have a span. -/
def spans : Nat := xs.countP fun x => (span x).isSome

/-- How many have one that runs backwards. -/
def backwards : Nat := xs.countP fun x => (span x).any fun clocks =>
  decide (Backward clocks.1 clocks.2)

/-- The lengths of the spans there are. -/
def lengths : List Int :=
  xs.filterMap fun x => (span x).map fun clocks => wrapI64 (clocks.2 - clocks.1)

/-- Every clock is a word. -/
def Clocked : Prop := ∀ x ∈ xs, ∀ clocks ∈ span x, Load.Word clocks.1 ∧ Load.Word clocks.2

@[simp] theorem length_lengths : (lengths xs span).length = spans xs span := by
  rw [lengths, List.length_filterMap_eq_countP, spans]
  simp only [Option.isSome_map]

variable {xs span}

/-- **A PERCENTILE OF SPANS IS A DURATION** exactly when fewer of them than its rank run
    backwards. -/
theorem percentile_lengths_iff (h : Clocked xs span) (A : Floats F) (p : F) :
    (∀ s ∈ percentileInt A (lengths xs span) p, 0 ≤ s)
      ↔ backwards xs span < rank A (spans xs span) p := by
  have hbackwards : ((lengths xs span).countP fun s => decide (s < 0)) = backwards xs span := by
    rw [lengths, List.countP_filterMap, backwards]
    refine List.countP_congr fun x hx => ?_
    cases hclocks : span x with
    | none => exact Iff.rfl
    | some clocks =>
        obtain ⟨hstart, hstop⟩ := h x hx clocks hclocks
        simp only [Option.map_some, Option.getD_some, Option.any_some, decide_eq_true_eq]
        exact wrapI64_neg_iff hstart hstop
  rw [percentileInt_nonneg_iff, length_lengths, hbackwards]

end Spans

/-! ## Disputes -/

/-- From the opening of a dispute to its resolution, where that is in the window. -/
def Dispute.span (window : Window) (dispute : Dispute) : Option (Int × Int) :=
  (dispute.resolvedAt.filter window.contains).map fun resolvedAt =>
    (dispute.openedAt, resolvedAt)

namespace Disputes

variable {data : DisputeData} {window : Window} {now : Int}

/-- The samples of the two percentiles are the lengths of the spans. -/
theorem resolution_eq (A : Floats F) (data : DisputeData) (window : Window) (now : Int) :
    (summarise A data window now).resolutionP50
        = percentileInt A (lengths data.disputes (Dispute.span window)) (p50 A)
      ∧ (summarise A data window now).resolutionP90
        = percentileInt A (lengths data.disputes (Dispute.span window)) (p90 A) := by
  have hsamples : ((data.disputes.filter fun dispute =>
      dispute.resolvedAt.any window.contains).filterMap fun dispute =>
        dispute.resolvedAt.map fun resolvedAt => wrapI64 (resolvedAt - dispute.openedAt))
      = lengths data.disputes (Dispute.span window) := by
    rw [List.filterMap_filter, lengths]
    congr 1
    funext dispute
    rw [Dispute.span]
    cases dispute.resolvedAt with
    | none => rfl
    | some resolvedAt =>
        by_cases hin : window.contains resolvedAt = true
        · simp [hin]
        · simp [hin]
  rw [← hsamples]
  exact ⟨rfl, rfl⟩

/-- An open dispute has been open for as long as the clock says. -/
theorem forall_book_iff (hwords : ∀ dispute ∈ data.disputes, Load.Word dispute.openedAt)
    (hnow : Load.Word now) :
    (∀ waiting ∈ book data now, 0 ≤ waiting.age)
      ↔ ∀ dispute ∈ data.disputes, dispute.status = .initiated → dispute.openedAt ≤ now →
        now - dispute.openedAt < 2 ^ 63 := by
  have hage : ∀ dispute ∈ data.disputes, dispute.openedAt ≤ now →
      (0 ≤ wrapI64 (now - dispute.openedAt) ↔ now - dispute.openedAt < 2 ^ 63) := by
    intro dispute hmem hle
    rw [← not_lt, wrapI64_neg_iff (hwords dispute hmem) hnow, Backward]
    omega
  constructor
  · intro hall dispute hmem hstatus hle
    refine (hage dispute hmem hle).mp (hall ⟨dispute.disputeId, _⟩ ?_)
    refine List.mem_map.mpr ⟨dispute, List.mem_mergeSort.mpr ?_, rfl⟩
    refine List.mem_filter.mpr ⟨hmem, ?_⟩
    rw [hstatus, decide_eq_true hle]
    rfl
  · intro hall waiting hwaiting
    obtain ⟨dispute, hdispute, rfl⟩ := List.mem_map.mp hwaiting
    obtain ⟨hmem, hopen⟩ := List.mem_filter.mp (List.mem_mergeSort.mp hdispute)
    obtain ⟨hstatus, hle⟩ := Bool.and_eq_true_iff.mp hopen
    have hbefore := of_decide_eq_true hle
    exact (hage dispute hmem hbefore).mpr (hall dispute hmem (eq_of_beq hstatus) hbefore)

/-- The counts and the shares among the figures of a window. -/
theorem datedMetrics_lasting_iff (A : Floats F) (scope : String) (disputes : Disputes F) :
    (∀ metric ∈ datedMetrics A scope disputes, metric.Lasting)
      ↔ (∀ s ∈ disputes.resolutionP50, 0 ≤ s) ∧ ∀ s ∈ disputes.resolutionP90, 0 ≤ s := by
  have hstatus : ∀ metric ∈ statusMetrics scope disputes, metric.Lasting := by
    intro metric hmetric
    obtain ⟨⟨status, n⟩, -, rfl⟩ := List.mem_map.mp hmetric
    exact lasting_count
  have hinitiator : ∀ metric ∈ initiatorMetrics A scope disputes, metric.Lasting := by
    intro metric hmetric
    simp only [initiatorMetrics, List.mem_cons, List.not_mem_nil, or_false] at hmetric
    rcases hmetric with rfl | rfl
    · exact lasting_ratioMetric
    · exact lasting_ratioMetric
  have houtcome : ∀ metric ∈ DisputeStatus.terminal.zipIdx.map fun entry =>
      ratioMetric A scope ("outcome." ++ entry.1.asKey)
        (disputes.outcome.bind fun shares => shares[entry.2]?), metric.Lasting := by
    intro metric hmetric
    obtain ⟨entry, -, rfl⟩ := List.mem_map.mp hmetric
    exact lasting_ratioMetric
  simp only [datedMetrics, List.forall_mem_append, List.forall_mem_cons, List.not_mem_nil,
    false_implies, implies_true, lasting_count, lasting_ratioMetric, lasting_secondsMetric,
    and_true, true_and]
  constructor
  · intro h
    exact h.2
  · intro h
    exact ⟨⟨⟨hstatus, hinitiator⟩, houtcome⟩, h⟩

/-- The seconds among the dispute figures. -/
theorem metrics_lasting_iff (A : Floats F) (scope : String) (disputes : Disputes F) :
    (∀ metric ∈ metrics A scope disputes, metric.Lasting)
      ↔ (∀ s ∈ disputes.resolutionP50, 0 ≤ s) ∧ (∀ s ∈ disputes.resolutionP90, 0 ≤ s)
        ∧ ∀ waiting ∈ disputes.openNow, 0 ≤ waiting.age := by
  have hopen : (∀ metric ∈ openMetrics (F := F) scope disputes, metric.Lasting)
      ↔ ∀ waiting ∈ disputes.openNow, 0 ≤ waiting.age := by
    rw [openMetrics, List.forall_mem_cons]
    constructor
    · intro h waiting hwaiting
      obtain ⟨i, hi, rfl⟩ := List.getElem_of_mem hwaiting
      have hlisted : (disputes.openNow[i], i) ∈ disputes.openNow.zipIdx := by
        rw [List.mk_mem_zipIdx_iff_getElem?, List.getElem?_eq_getElem hi]
      refine h.2 (secondsMetric scope ("open." ++ toString (i + 1) ++ ".age")
        (some disputes.openNow[i].age)) (List.mem_flatMap.mpr ⟨_, hlisted, ?_⟩) _ rfl
      exact List.mem_cons_of_mem _ List.mem_cons_self
    · intro h
      refine ⟨lasting_count, fun metric hmetric => ?_⟩
      obtain ⟨⟨waiting, i⟩, hwaiting, hrow⟩ := List.mem_flatMap.mp hmetric
      have hmem : waiting ∈ disputes.openNow := List.fst_mem_of_mem_zipIdx hwaiting
      simp only [List.mem_cons, List.not_mem_nil, or_false] at hrow
      rcases hrow with rfl | rfl
      · exact lasting_of_not_seconds fun s hs => by cases hs
      · refine lasting_secondsMetric.mpr fun s hs => ?_
        cases hs
        exact h waiting hmem
  rw [metrics, List.forall_mem_append, datedMetrics_lasting_iff, hopen, and_assoc]

end Disputes

/-! ## Dev fees -/

/-- From the settlement of an order to the fee that counts for it, where the fee is in
    the window. -/
def Fee.span (window : Window) (fee : Fee F) : Option (Int × Int) :=
  if !fee.isDuplicate && window.contains fee.createdAt then
    fee.settledAt.map fun settled => (settled, fee.createdAt)
  else none

namespace DevFees

/-- The samples of the two percentiles are the lengths of the spans. -/
theorem latency_eq (A : Floats F) (data : DevFeeData F) (window : Window) :
    (summarise A data window).latencyP50
        = percentileInt A (lengths data.fees (Fee.span window)) (p50 A)
      ∧ (summarise A data window).latencyP90
        = percentileInt A (lengths data.fees (Fee.span window)) (p90 A) := by
  have hsamples : ((data.canonical window).filterMap fun fee =>
      fee.settledAt.map fun settled => wrapI64 (fee.createdAt - settled))
      = lengths data.fees (Fee.span window) := by
    rw [DevFeeData.canonical, List.filterMap_filter, lengths]
    congr 1
    funext fee
    rw [Fee.span]
    split
    · rw [Option.map_map]
      rfl
    · rfl
  rw [← hsamples]
  exact ⟨rfl, rfl⟩

/-- The seconds among the fee figures. -/
theorem metrics_lasting_iff (A : Floats F) (scope : String) (fees : DevFees F) :
    (∀ metric ∈ metrics A scope fees, metric.Lasting)
      ↔ (∀ s ∈ fees.latencyP50, 0 ≤ s) ∧ ∀ s ∈ fees.latencyP90, 0 ≤ s := by
  have htotal : (Metric.observed (dotted scope "total_sats")
      (.sats fees.totalSats) : Metric F).Lasting :=
    lasting_of_not_seconds fun s hs => by cases hs
  simp only [metrics, List.forall_mem_cons, List.not_mem_nil, false_implies, implies_true,
    lasting_count, lasting_ratioMetric, lasting_secondsMetric, and_true, true_and]
  exact and_iff_right htotal

end DevFees

/-! ## What is published -/

/-- No percentile shows a span that runs backwards, and no open dispute is older than a
    word can say. -/
structure Forward (A : Floats F) (disputes : DisputeData) (fees : DevFeeData F)
    (window : Window) (now : Int) : Prop where
  resolutions : ∀ p ∈ [p50 A, p90 A],
    backwards disputes.disputes (Dispute.span window)
      < rank A (spans disputes.disputes (Dispute.span window)) p
  latencies : ∀ p ∈ [p50 A, p90 A],
    backwards fees.fees (Fee.span window) < rank A (spans fees.fees (Fee.span window)) p
  ages : ∀ dispute ∈ disputes.disputes, dispute.status = .initiated → dispute.openedAt ≤ now →
    now - dispute.openedAt < 2 ^ 63

section Loaded

open Rebuild

variable {X : Externals F} {db : Repo.Db F}

/-- The figures of a dispute load and a fee load over words are durations exactly when
    no percentile shows a span that runs backwards and no age outgrows a word. -/
theorem metrics_lasting_iff_forward {A : Floats F} {disputes : DisputeData} {fees : DevFeeData F}
    (hdisputes : ∀ dispute ∈ disputes.disputes,
      Load.Word dispute.openedAt ∧ ∀ t ∈ dispute.resolvedAt, Load.Word t)
    (hfees : ∀ fee ∈ fees.fees, Load.Word fee.createdAt ∧ ∀ t ∈ fee.settledAt, Load.Word t)
    {window : Window} {now : Int} (hnow : Load.Word now) (d f : String) :
    ((∀ metric ∈ Disputes.metrics A d (Disputes.summarise A disputes window now), metric.Lasting)
        ∧ ∀ metric ∈ DevFees.metrics A f (DevFees.summarise A fees window), metric.Lasting)
      ↔ Forward A disputes fees window now := by
  have hresolved : Clocked disputes.disputes (Dispute.span window) := by
    intro dispute hdispute clocks hclocks
    obtain ⟨resolvedAt, hresolvedAt, rfl⟩ := Option.map_eq_some_iff.mp hclocks
    obtain ⟨hopened, hended⟩ := hdisputes dispute hdispute
    exact ⟨hopened, hended resolvedAt (Option.filter_eq_some_iff.mp hresolvedAt).1⟩
  have hpaid : Clocked fees.fees (Fee.span window) := by
    intro fee hfee clocks hclocks
    rw [Fee.span] at hclocks
    split at hclocks
    · obtain ⟨settledAt, hsettledAt, rfl⟩ := Option.map_eq_some_iff.mp hclocks
      obtain ⟨hcreated, hsettled⟩ := hfees fee hfee
      exact ⟨hsettled settledAt hsettledAt, hcreated⟩
    · cases hclocks
  obtain ⟨hresolution50, hresolution90⟩ := Disputes.resolution_eq A disputes window now
  obtain ⟨hlatency50, hlatency90⟩ := DevFees.latency_eq A fees window
  have hbook : (Disputes.summarise A disputes window now).openNow = Disputes.book disputes now :=
    rfl
  rw [Disputes.metrics_lasting_iff, DevFees.metrics_lasting_iff, hresolution50, hresolution90,
    hlatency50, hlatency90, hbook, percentile_lengths_iff hresolved,
    percentile_lengths_iff hresolved, percentile_lengths_iff hpaid,
    percentile_lengths_iff hpaid,
    Disputes.forall_book_iff (fun dispute hdispute => (hdisputes dispute hdispute).1) hnow]
  constructor
  · rintro ⟨⟨h50, h90, hages⟩, hfee50, hfee90⟩
    refine ⟨?_, ?_, hages⟩
    · exact List.forall_mem_cons.mpr ⟨h50, List.forall_mem_singleton.mpr h90⟩
    · exact List.forall_mem_cons.mpr ⟨hfee50, List.forall_mem_singleton.mpr hfee90⟩
  · rintro ⟨hresolutions, hlatencies, hages⟩
    obtain ⟨h50, h90⟩ := List.forall_mem_cons.mp hresolutions
    obtain ⟨hfee50, hfee90⟩ := List.forall_mem_cons.mp hlatencies
    exact ⟨⟨h50, h90 _ List.mem_cons_self, hages⟩, hfee50, hfee90 _ List.mem_cons_self⟩

/-- **DURATIONS ARE DURATIONS** exactly when no percentile of resolutions or latencies
    shows one that runs backwards; timing reports nothing else. -/
theorem durations_iff (h : Reachable X db) (A : Floats F) (scope : Load.Scope) {now : Int}
    (hnow : Load.Word now) :
    ∃ disputes, Load.disputeData scope db = .ok disputes
      ∧ ∀ (orders : List (Order F)) (window : Window) (t d f : String),
        (∀ metric ∈ Timing.metrics A t (Timing.summarise A orders window now)
            ++ Disputes.metrics A d (Disputes.summarise A disputes window now)
            ++ DevFees.metrics A f
              (DevFees.summarise A (Load.devFeeData A scope db) window), metric.Lasting)
          ↔ Forward A disputes (Load.devFeeData A scope db) window now := by
  obtain ⟨disputes, hload, hwords⟩ := Load.disputeData_spec h.settled scope
  refine ⟨disputes, hload, fun orders window t d f => ?_⟩
  have hfees := Load.devFeeData_spec h.settled A scope
  rw [List.append_assoc, List.forall_mem_append, List.forall_mem_append,
    metrics_lasting_iff_forward hwords hfees hnow]
  exact and_iff_right (Timing.metrics_lasting A t orders window now)

end Loaded

/-! ## A dispute resolved before it was opened -/

/-- A dispute first seen settled, ten minutes before the opening its tag carries. -/
def aheadDispute : Event where
  id := "6000000000000000000000000000000000000000000000000000000000000003"
  pubkey := Convergence.alice
  createdAt := 1785600000
  kind := disputeKind
  tags := [["d", "4c0e5f2a-7a31-4d5c-9e0b-0c5d1f7a2b01"], ["s", "settled"],
    ["initiator", "buyer"], ["y", "mostro"], ["published_at", "1785600600"], ["z", "dispute"]]
  content := ""
  sig := ""

def aheadSeen : Externals Int := Externals.over [aheadDispute] (by decide) []

/-- The database once the dispute has been read. -/
def disputedOnce : Repo.Db Int :=
  (Pipeline.ingest aheadSeen Convergence.openPolicy ⟨aheadDispute, "wss://a", 1785600001⟩
    Repo.Db.empty).2

theorem reachable_disputedOnce : Rebuild.Reachable aheadSeen disputedOnce :=
  .ingest Convergence.openPolicy ⟨aheadDispute, "wss://a", 1785600001⟩ .empty

/-- What that database publishes, over any window. -/
theorem durations_of_disputedOnce :
    ∃ disputes, Load.disputeData Load.everything disputedOnce = .ok disputes
      ∧ ∀ (orders : List (Order Int)) (window : Window) (t d f : String),
        (∀ metric ∈ Timing.metrics Floats.whole t
              (Timing.summarise Floats.whole orders window 1785610000)
            ++ Disputes.metrics Floats.whole d
              (Disputes.summarise Floats.whole disputes window 1785610000)
            ++ DevFees.metrics Floats.whole f (DevFees.summarise Floats.whole
              (Load.devFeeData Floats.whole Load.everything disputedOnce) window),
            metric.Lasting)
          ↔ Forward Floats.whole disputes
            (Load.devFeeData Floats.whole Load.everything disputedOnce) window 1785610000 :=
  durations_iff reachable_disputedOnce Floats.whole Load.everything
    ⟨by decide, by decide⟩

/-- **A RESOLUTION OF MINUS TEN MINUTES** is what is published of that dispute. -/
theorem resolution_negative :
    Rebuild.Reachable aheadSeen disputedOnce
      ∧ ∃ disputes, Load.disputeData Load.everything disputedOnce = .ok disputes
        ∧ ∃ metric ∈ Disputes.metrics Floats.whole "disputes" (Disputes.summarise Floats.whole
            disputes ⟨1785599000, 1785601000⟩ 1785610000), metric.value = .seconds (-600) := by
  have hmedian : ((Load.disputeData Load.everything disputedOnce).map fun disputes =>
      (Disputes.summarise Floats.whole disputes ⟨1785599000, 1785601000⟩
        1785610000).resolutionP50) = .ok (some (-600)) := by
    decide +kernel
  obtain ⟨disputes, hload, -⟩ := Load.disputeData_spec reachable_disputedOnce.settled
    Load.everything
  rw [hload] at hmedian
  refine ⟨reachable_disputedOnce, disputes, hload,
    secondsMetric "disputes" "resolution_p50" (some (-600)), ?_, rfl⟩
  rw [← Except.ok.inj hmedian]
  simp [Disputes.metrics, Disputes.datedMetrics]

end Stats
