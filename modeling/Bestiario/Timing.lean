import Bestiario.Activity

/-! # Timing and the funnel

    `crates/stats/src/timing.rs`: how long each stage of an order takes, how old
    the open book is, and what became of the orders that entered it.

    The funnel is a loop with an accumulator, and each order falls through one of
    its arms.  Read as a FATE the order met, the loop is a count of the cohort by
    fate, and everything the funnel accounts for follows from the counts. -/

namespace Stats

open Tiling

variable {F : Type}

namespace Timing

/-- How an order's observed history ended. -/
inductive Terminal where
  | success (at' : Int)
  | canceled (at' : Int)
  deriving DecidableEq, Repr

/-- The canonical end: the earlier of the first `success` and the first
    `canceled`. -/
def terminal (order : Order F) : Option Terminal :=
  match order.successAt, order.canceledAt with
  | some success, some canceled =>
      if canceled < success then some (.canceled canceled) else some (.success success)
  | some success, none => some (.success success)
  | none, some canceled => some (.canceled canceled)
  | none, none => none

theorem terminal_eq_none {order : Order F} (h : terminal order = none) :
    order.successAt = none ∧ order.canceledAt = none := by
  rw [terminal] at h
  cases hs : order.successAt with
  | none =>
      cases hc : order.canceledAt with
      | none => exact ⟨rfl, rfl⟩
      | some canceled =>
          rw [hs, hc] at h
          exact nomatch h
  | some success =>
      cases hc : order.canceledAt with
      | none =>
          rw [hs, hc] at h
          exact nomatch h
      | some canceled =>
          rw [hs, hc] at h
          dsimp only at h
          split_ifs at h

/-- `i64::checked_sub`. -/
def checkedSub (a b : Int) : Option Int :=
  if -2 ^ 63 ≤ a - b ∧ a - b < 2 ^ 63 then some (a - b) else none

/-- The age of an order on the book at `now`, or nothing when it is not on it. -/
def bookAge (order : Order F) (now : Int) : Option Int :=
  let onBook := order.takenAt.isNone && (terminal order).isNone
    && order.expiresAt.any fun expires => decide (expires > now)
  if !onBook then none
  else (order.pendingAt.filter fun pending => decide (pending ≤ now)).bind (checkedSub now)

/-- What became of the orders that entered the book in a window. -/
structure Funnel where
  created : Nat := 0
  taken : Nat := 0
  completed : Nat := 0
  canceledTaken : Nat := 0
  canceledUntaken : Nat := 0
  expiredUntaken : Nat := 0
  opened : Nat := 0
  deriving DecidableEq, Repr

namespace Funnel

/-- One more order of the cohort. -/
def step (now : Int) (funnel : Funnel) (order : Order F) : Funnel :=
  let funnel := { funnel with created := funnel.created + 1 }
  let end' := terminal order
  let taken := order.takenAt.isSome || match end' with
    | some (.success _) => true
    | _ => false
  let funnel := if taken then { funnel with taken := funnel.taken + 1 } else funnel
  match end' with
  | some (.success _) => { funnel with completed := funnel.completed + 1 }
  | some (.canceled _) =>
      if order.takenAt.isSome then { funnel with canceledTaken := funnel.canceledTaken + 1 }
      else { funnel with canceledUntaken := funnel.canceledUntaken + 1 }
  | none =>
      if !taken && order.expiresAt.any fun expires => decide (expires ≤ now) then
        { funnel with expiredUntaken := funnel.expiredUntaken + 1 }
      else { funnel with opened := funnel.opened + 1 }

end Funnel

/-- Whether an order entered the book in the window. -/
def cohort (window : Window) (order : Order F) : Bool := order.pendingAt.any window.contains

/-- The loop of `summarise` over the cohort. -/
def Funnel.over (orders : List (Order F)) (window : Window) (now : Int) : Funnel :=
  (orders.filter (cohort window)).foldl (Funnel.step now) {}

/-- The lengths of the gaps from `start` to `stop`, for the gaps that end in the
    window and are longer than nothing. -/
def gaps (orders : List (Order F)) (window : Window) (start stop : Order F → Option Int) :
    List Int :=
  ((orders.filterMap fun order =>
      (start order).bind fun a => (stop order).map fun b => (a, b)).filter
    fun gap => window.contains gap.2).filterMap fun gap =>
      (checkedSub gap.2 gap.1).filter fun length => decide (length > 0)

/-- When it succeeded, if that is its canonical end. -/
def success (order : Order F) : Option Int :=
  match terminal order with
  | some (.success at') => some at'
  | _ => none

/-- When it was canceled, if that is its canonical end. -/
def canceled (order : Order F) : Option Int :=
  match terminal order with
  | some (.canceled at') => some at'
  | _ => none

/-- The mean age of the book to the second; the sum is in `i128`. -/
def meanAge (ages : List Int) : Option Int :=
  if ages.isEmpty then none
  else
    let age := ages.sum.tdiv ages.length
    if -2 ^ 63 ≤ age ∧ age < 2 ^ 63 then some age else none

end Timing

/-- The figures of one window. -/
structure Timing where
  timeToFillSamples : Nat
  timeToFillP50 : Option Int
  timeToFillP90 : Option Int
  timeToCompleteSamples : Nat
  timeToCompleteP50 : Option Int
  timeToCompleteP90 : Option Int
  fullCycleSamples : Nat
  fullCycleP50 : Option Int
  fullCycleP90 : Option Int
  timeToCancelSamples : Nat
  timeToCancelP50 : Option Int
  timeToCancelP90 : Option Int
  bookSize : Nat
  bookAgeAvg : Option Int
  funnel : Timing.Funnel
  /-- Orders first seen in the window at a version later than `pending`. -/
  unknownOrigin : Nat
  /-- Orders with both a success and a cancellation seen. -/
  regressed : Nat

namespace Timing

/-- `timing::summarise`. -/
def summarise (A : Floats F) (orders : List (Order F)) (window : Window) (now : Int) : Timing :=
  let fills := gaps orders window Order.pendingAt Order.takenAt
  let completes := gaps orders window Order.takenAt success
  let cycles := gaps orders window Order.pendingAt success
  let cancels := gaps orders window Order.pendingAt canceled
  let ages := orders.filterMap fun order => bookAge order now
  { timeToFillSamples := fills.length
    timeToFillP50 := percentileInt A fills (p50 A)
    timeToFillP90 := percentileInt A fills (p90 A)
    timeToCompleteSamples := completes.length
    timeToCompleteP50 := percentileInt A completes (p50 A)
    timeToCompleteP90 := percentileInt A completes (p90 A)
    fullCycleSamples := cycles.length
    fullCycleP50 := percentileInt A cycles (p50 A)
    fullCycleP90 := percentileInt A cycles (p90 A)
    timeToCancelSamples := cancels.length
    timeToCancelP50 := percentileInt A cancels (p50 A)
    timeToCancelP90 := percentileInt A cancels (p90 A)
    bookSize := ages.length
    bookAgeAvg := meanAge ages
    funnel := Funnel.over orders window now
    unknownOrigin := orders.countP fun order =>
      order.pendingAt.isNone && window.contains order.createdAt
    regressed := orders.countP fun order => order.successAt.isSome && order.canceledAt.isSome }

/-! ## Fates -/

/-- What became of an order that entered the book. -/
inductive Fate where
  | completed
  | canceledTaken
  | canceledUntaken
  | expiredUntaken
  | opened
  deriving DecidableEq, Repr

/-- The fate of an order at `now`. -/
def fate (now : Int) (order : Order F) : Fate :=
  match terminal order with
  | some (.success _) => .completed
  | some (.canceled _) => if order.takenAt.isSome then .canceledTaken else .canceledUntaken
  | none =>
      if order.takenAt.isNone && order.expiresAt.any fun expires => decide (expires ≤ now) then
        .expiredUntaken
      else .opened

/-- Whether it found a taker: a success implies one. -/
def found (order : Order F) : Bool := order.takenAt.isSome || (success order).isSome

namespace Funnel

instance : Zero Funnel := ⟨{}⟩

/-- Funnels add up counter by counter. -/
instance : Add Funnel where
  add f g :=
    { created := f.created + g.created
      taken := f.taken + g.taken
      completed := f.completed + g.completed
      canceledTaken := f.canceledTaken + g.canceledTaken
      canceledUntaken := f.canceledUntaken + g.canceledUntaken
      expiredUntaken := f.expiredUntaken + g.expiredUntaken
      opened := f.opened + g.opened }

instance : AddMonoid Funnel where
  add_assoc f g h := by
    show Funnel.mk _ _ _ _ _ _ _ = Funnel.mk _ _ _ _ _ _ _
    congr 1 <;> exact Nat.add_assoc _ _ _
  zero_add f := by
    show Funnel.mk _ _ _ _ _ _ _ = f
    congr 1 <;> exact Nat.zero_add _
  add_zero f := rfl
  nsmul := nsmulRec

/-- Some of the orders counted: how many, how many found a taker, and how many
    met each fate. -/
def counts (now : Int) (orders : List (Order F)) (inside : Order F → Bool) : Funnel :=
  let those := fun p : Order F → Bool => orders.countP fun order => inside order && p order
  { created := those fun _ => true
    taken := those found
    completed := those fun order => decide (fate now order = .completed)
    canceledTaken := those fun order => decide (fate now order = .canceledTaken)
    canceledUntaken := those fun order => decide (fate now order = .canceledUntaken)
    expiredUntaken := those fun order => decide (fate now order = .expiredUntaken)
    opened := those fun order => decide (fate now order = .opened) }

/-- One step of the loop adds what the order alone counts for. -/
theorem step_eq (now : Int) (funnel : Funnel) (order : Order F) :
    step now funnel order = funnel + counts now [order] fun _ => true := by
  obtain ⟨c, t, k, ct, cu, e, o⟩ := funnel
  show _ = Funnel.mk _ _ _ _ _ _ _
  cases hend : terminal order with
  | none =>
      cases htaken : order.takenAt with
      | none =>
          by_cases hexp : order.expiresAt.any (fun expires => decide (expires ≤ now)) = true
          · simp [step, counts, found, success, fate, hend, htaken, hexp]
          · simp [step, counts, found, success, fate, hend, htaken, hexp]
      | some at' => simp [step, counts, found, success, fate, hend, htaken]
  | some end' =>
      cases end' with
      | success at' => simp [step, counts, found, success, fate, hend]
      | canceled at' =>
          cases htaken : order.takenAt with
          | none => simp [step, counts, found, success, fate, hend, htaken]
          | some taken => simp [step, counts, found, success, fate, hend, htaken]

theorem counts_append (now : Int) (orders orders' : List (Order F)) (inside : Order F → Bool) :
    counts now (orders ++ orders') inside
      = counts now orders inside + counts now orders' inside := by
  show Funnel.mk _ _ _ _ _ _ _ = Funnel.mk _ _ _ _ _ _ _
  simp only [counts, List.countP_append]

theorem counts_filter (now : Int) (orders : List (Order F)) (inside : Order F → Bool) :
    counts now (orders.filter inside) (fun _ => true) = counts now orders inside := by
  simp only [counts, List.countP_filter, Bool.true_and, Bool.and_comm]

theorem foldl_step (now : Int) (orders : List (Order F)) (funnel : Funnel) :
    orders.foldl (step now) funnel = funnel + counts now orders fun _ => true := by
  induction orders generalizing funnel with
  | nil => rfl
  | cons order rest ih =>
      rw [List.foldl_cons, ih, step_eq, add_assoc, ← counts_append]
      rfl

/-- **THE LOOP COUNTS THE COHORT BY FATE.** -/
theorem over_eq (orders : List (Order F)) (window : Window) (now : Int) :
    Funnel.over orders window now = counts now orders (cohort window) := by
  rw [Funnel.over, foldl_step, counts_filter]
  exact zero_add _

end Funnel

/-! ## What the funnel accounts for -/

/-- Whatever is counted is counted under one fate. -/
theorem countP_fates (now : Int) (orders : List (Order F)) (p : Order F → Bool) :
    orders.countP p
      = (orders.countP fun order => p order && decide (fate now order = .completed))
        + (orders.countP fun order => p order && decide (fate now order = .canceledTaken))
        + (orders.countP fun order => p order && decide (fate now order = .canceledUntaken))
        + (orders.countP fun order => p order && decide (fate now order = .expiredUntaken))
        + (orders.countP fun order => p order && decide (fate now order = .opened)) := by
  induction orders with
  | nil => rfl
  | cons order rest ih =>
      simp only [List.countP_cons]
      rw [ih]
      cases p order with
      | false => simp
      | true => cases fate now order <;> simp <;> omega

/-- Who found a taker: those completed, those canceled after they were taken, and
    of those open the ones that have been taken. -/
theorem found_eq (now : Int) (order : Order F) :
    found order = (decide (fate now order = .completed)
      || decide (fate now order = .canceledTaken)
      || decide (fate now order = .opened) && order.takenAt.isSome) := by
  cases hend : terminal order with
  | none =>
      cases htaken : order.takenAt with
      | none =>
          by_cases hexp : order.expiresAt.any (fun expires => decide (expires ≤ now)) = true
          · simp [found, success, fate, hend, htaken, hexp]
          · simp [found, success, fate, hend, htaken, hexp]
      | some taken => simp [found, success, fate, hend, htaken]
  | some end' =>
      cases end' with
      | success at' => simp [found, success, fate, hend]
      | canceled at' =>
          cases htaken : order.takenAt with
          | none => simp [found, success, fate, hend, htaken]
          | some taken => simp [found, success, fate, hend, htaken]

/-- The takers of some orders, by fate. -/
theorem countP_found (now : Int) (orders : List (Order F)) (p : Order F → Bool) :
    (orders.countP fun order => p order && found order)
      = (orders.countP fun order => p order && decide (fate now order = .completed))
        + (orders.countP fun order => p order && decide (fate now order = .canceledTaken))
        + (orders.countP fun order => p order
          && (decide (fate now order = .opened) && order.takenAt.isSome)) := by
  induction orders with
  | nil => rfl
  | cons order rest ih =>
      simp only [List.countP_cons]
      rw [ih, found_eq now]
      cases p order with
      | false => simp
      | true => cases fate now order <;> simp <;> omega

/-- What is on the book has not been taken, has not ended and has not expired. -/
theorem onBook {now : Int} {order : Order F} (h : (bookAge order now).isSome) :
    order.takenAt = none ∧ terminal order = none
      ∧ ∃ expires, order.expiresAt = some expires ∧ now < expires := by
  have hon : (order.takenAt.isNone && (terminal order).isNone
      && order.expiresAt.any fun expires => decide (expires > now)) = true := by
    cases hon : order.takenAt.isNone && (terminal order).isNone
        && order.expiresAt.any fun expires => decide (expires > now) with
    | true => rfl
    | false =>
        rw [bookAge, hon] at h
        exact nomatch h
  simp only [Bool.and_eq_true, Option.isNone_iff_eq_none] at hon
  obtain ⟨⟨htaken, hend⟩, hexp⟩ := hon
  cases hexpires : order.expiresAt with
  | none =>
      rw [hexpires] at hexp
      exact nomatch hexp
  | some expires =>
      rw [hexpires] at hexp
      exact ⟨htaken, hend, expires, rfl, of_decide_eq_true hexp⟩

/-- What is on the book is open. -/
theorem opened_of_bookAge {now : Int} {order : Order F} (h : (bookAge order now).isSome) :
    fate now order = .opened := by
  obtain ⟨htaken, hend, expires, hexpires, hlater⟩ := onBook h
  simp [fate, hend, htaken, hexpires, not_le.mpr hlater]

namespace Funnel

/-- An order is counted open when its fate is to be open. -/
theorem opened_step (now : Int) (order : Order F) :
    (step now {} order).opened = if fate now order = .opened then 1 else 0 := by
  rw [step_eq]
  show 0 + _ = _
  simp [counts]

/-- A sum of funnels, counter by counter. -/
theorem sum_map {α : Type} (xs : List α) (c t k ct cu e o : α → Nat) :
    (xs.map fun x => Funnel.mk (c x) (t x) (k x) (ct x) (cu x) (e x) (o x)).sum
      = Funnel.mk (xs.map c).sum (xs.map t).sum (xs.map k).sum (xs.map ct).sum
        (xs.map cu).sum (xs.map e).sum (xs.map o).sum := by
  induction xs with
  | nil => rfl
  | cons x rest ih =>
      rw [List.map_cons, List.sum_cons, ih]
      rfl

/-- A counter of the funnel adds up over tiles. -/
theorem sum_cohort {w : Window} {parts : List Window}
    (h : Tiles w.from' (parts.map Window.interval) w.until') (orders : List (Order F))
    (p : Order F → Bool) :
    (parts.map fun part => orders.countP fun order => cohort part order && p order).sum
      = orders.countP fun order => cohort w order && p order := by
  have hdate : ∀ window, (orders.countP fun order => cohort window order && p order)
      = dated orders window fun order => if p order then order.pendingAt else none := by
    intro window
    refine List.countP_congr fun order _ => ?_
    cases hp : p order with
    | true => simp [cohort, hp]
    | false => simp [hp]
  simp only [hdate]
  exact sum_dated h orders _

/-- The funnel adds up over tiles. -/
theorem sum_over {w : Window} {parts : List Window}
    (h : Tiles w.from' (parts.map Window.interval) w.until') (orders : List (Order F))
    (now : Int) :
    (parts.map fun part => Funnel.over orders part now).sum = Funnel.over orders w now := by
  simp only [over_eq, counts, sum_map, sum_cohort h]

end Funnel

/-- **THE FUNNEL ACCOUNTS FOR EVERY ORDER.**  Those created are those completed,
    canceled, expired and open; those taken are those completed, those canceled
    after they were taken and those open that have been taken; what is on the
    book is open; and the funnel adds up, over lists and over the tiles of a
    window. -/
theorem funnel_accounts (A : Floats F) (orders : List (Order F)) (window : Window)
    (now : Int) :
    let funnel := (summarise A orders window now).funnel
    funnel.created = funnel.completed + funnel.canceledTaken + funnel.canceledUntaken
        + funnel.expiredUntaken + funnel.opened
      ∧ funnel.taken = funnel.completed + funnel.canceledTaken
        + (orders.filter (cohort window)).countP (fun order =>
            (Funnel.step now {} order).opened == 1 && order.takenAt.isSome)
      ∧ (∀ order ∈ orders, (bookAge order now).isSome → cohort window order = true →
          (Funnel.step now {} order).opened = 1)
      ∧ (∀ orders' : List (Order F), (summarise A (orders ++ orders') window now).funnel
          = funnel + (summarise A orders' window now).funnel)
      ∧ ∀ parts : List Window,
          Tiles window.from' (parts.map Window.interval) window.until' →
            (parts.map fun part => (summarise A orders part now).funnel).sum = funnel := by
  intro funnel
  have hfunnel : ∀ (orders : List (Order F)) (window : Window),
      (summarise A orders window now).funnel = Funnel.counts now orders (cohort window) :=
    fun orders window => Funnel.over_eq orders window now
  have hopened : ∀ order : Order F,
      ((Funnel.step now {} order).opened == 1) = decide (fate now order = .opened) := by
    intro order
    rw [Funnel.opened_step]
    by_cases hf : fate now order = .opened
    · simp [hf]
    · simp [hf]
  refine ⟨?_, ?_, ?_, ?_, ?_⟩
  · rw [show funnel = _ from hfunnel orders window]
    have hfates := countP_fates now orders fun order => cohort window order && true
    simpa only [Funnel.counts, Bool.and_true] using hfates
  · rw [show funnel = _ from hfunnel orders window]
    simp only [hopened, List.countP_filter, Funnel.counts]
    rw [countP_found now]
    simp only [Bool.and_comm, Bool.and_left_comm]
  · intro order _ hage _
    rw [Funnel.opened_step, if_pos (opened_of_bookAge hage)]
  · intro orders'
    rw [hfunnel, hfunnel, Funnel.counts_append, ← hfunnel]
  · exact fun parts htiles => Funnel.sum_over htiles orders now

end Timing

end Stats
