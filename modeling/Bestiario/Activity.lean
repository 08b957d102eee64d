import Mathlib.Data.String.Basic
import Bestiario.Lib.Groups
import Bestiario.Metric

/-! # Activity

    `crates/stats/src/activity.rs`: the orders, and how many were created,
    completed and canceled in a window.  Each figure is dated by the event that
    defines it, which is what makes consecutive windows add up. -/

namespace Stats

open Calendar Tiling Timestamp Groups

variable {F : Type}

/-- The four statuses that reach the wire. -/
inductive Status where
  | pending
  | inProgress
  | success
  | canceled
  deriving DecidableEq, Repr

/-- Which side the maker is on. -/
inductive Direction where
  | buy
  | sell
  deriving DecidableEq, Repr

/-- What an order asked for when it was first published. -/
structure Origin where
  fiatCode : String
  paymentMethods : List String
  direction : Direction
  deriving DecidableEq, Repr

/-- One order: its lifecycle timestamps and the dimensions it is sliced on. -/
structure Order (F : Type) where
  orderId : String
  pubkey : String
  instance' : String
  createdAt : Int
  status : Status
  direction : Direction
  fiatCode : String
  paymentMethods : List String
  amountSats : Int
  fiatAmount : Option F
  premium : F
  isMarketPrice : Bool
  fiatRange : Option (F × F)
  /-- The first `pending` version seen. -/
  pendingAt : Option Int
  origin : Origin
  takenAt : Option Int
  successAt : Option Int
  canceledAt : Option Int
  expiresAt : Option Int

namespace Order

/-- When the order was created, always known. -/
def created (order : Order F) : Option Int := some order.createdAt

/-- When it reached `success`, if that is where it stands. -/
def completed (order : Order F) : Option Int :=
  if order.status = .success then order.successAt else none

/-- When it reached `canceled`, if that is where it stands. -/
def canceled (order : Order F) : Option Int :=
  if order.status = .canceled then order.canceledAt else none

/-- Still on the book at `now`. -/
def isOpen (now : Int) (order : Order F) : Bool :=
  order.status == .pending && order.expiresAt.any fun expires => decide (expires > now)

end Order

/-- The three dated counts of a window. -/
structure Counts where
  created : Nat
  completed : Nat
  canceled : Nat
  deriving DecidableEq, Repr

/-- The orders that `pick` dates inside the window. -/
def dated (orders : List (Order F)) (window : Window) (pick : Order F → Option Int) : Nat :=
  orders.countP fun order => (pick order).any window.contains

def Counts.over (orders : List (Order F)) (window : Window) : Counts where
  created := dated orders window Order.created
  completed := dated orders window Order.completed
  canceled := dated orders window Order.canceled

/-! ## Counts over the buckets of a window -/

/-- A dated count adds up over the tiles of a window. -/
theorem sum_dated {w : Window} {parts : List Window}
    (h : Tiles w.from' (parts.map Window.interval) w.until') (orders : List (Order F))
    (pick : Order F → Option Int) :
    (parts.map fun part => dated orders part pick).sum = dated orders w pick := by
  have hsum := h.sum_countP orders pick
  rw [List.map_map] at hsum
  exact hsum

/-- **THE BUCKETS OF A WINDOW TILE IT.**  For any period they are non-empty and
    contiguous from its first second to its last, each lies in one calendar cell
    and is keyed by it, no key comes twice, the counts of any orders add up, and
    a limit refuses exactly the windows with more. -/
theorem buckets_tile {w : Window} (hlt : w.from' < w.until') (hdated : w.Dated)
    (period : Period) :
    Tiles w.from' ((w.buckets period).map fun bucket => bucket.2.interval) w.until'
      ∧ (∀ bucket ∈ w.buckets period, ∀ t, bucket.2.contains t = true →
          period.key t = bucket.1)
      ∧ ((w.buckets period).map Prod.fst).Nodup
      ∧ (∀ orders : List (Order F),
          ((w.buckets period).map fun bucket => (Counts.over orders bucket.2).created).sum
              = (Counts.over orders w).created
            ∧ ((w.buckets period).map fun bucket =>
                (Counts.over orders bucket.2).completed).sum = (Counts.over orders w).completed
            ∧ ((w.buckets period).map fun bucket =>
                (Counts.over orders bucket.2).canceled).sum = (Counts.over orders w).canceled)
      ∧ ∀ limit, w.bucketsUpto period limit
          = if (w.buckets period).length ≤ limit then some (w.buckets period) else none := by
  have htiles := Window.tiles_rows hlt period
  rw [Window.buckets_eq hdated hlt]
  refine ⟨htiles, fun bucket hmem t ht => Window.key_of_rows hmem ht,
    Window.keys_nodup hdated period, fun orders => ?_, Window.bucketsUpto_eq hdated hlt period⟩
  have hparts : Tiles w.from' (((w.rows period).map Prod.snd).map Window.interval) w.until' := by
    rw [List.map_map]
    exact htiles
  have hsum : ∀ pick : Order F → Option Int,
      ((w.rows period).map fun bucket => dated orders bucket.2 pick).sum
        = dated orders w pick := by
    intro pick
    rw [← sum_dated hparts orders pick, List.map_map]
    rfl
  exact ⟨hsum _, hsum _, hsum _⟩

/-- Three weeks around a new year. -/
def newYear : Window := ⟨1766966400, 1768348800⟩

theorem newYear_weeks_tile :
    Tiles newYear.from' ((newYear.buckets .week).map fun bucket => bucket.2.interval)
        newYear.until'
      ∧ (newYear.buckets .week).map Prod.fst = ["2026-W01", "2026-W02", "2026-W03"] :=
  ⟨(buckets_tile (F := Int) (by decide) (by decide) .week).1, by decide +kernel⟩

/-- The figures of one window. -/
structure Activity (F : Type) where
  created : Nat
  completed : Nat
  canceled : Nat
  completionRate : Option F
  abandonmentRate : Option F
  openNow : Nat
  inProgressNow : Nat
  createdDelta : Option F
  completedDelta : Option F

/-- `(current - previous) / previous`, or nothing when there was no previous. -/
def growth (A : Floats F) (current previous : Nat) : Option F :=
  if previous > 0 then
    some (A.div (A.sub (A.ofInt current) (A.ofInt previous)) (A.ofInt previous))
  else none

/-- The figures for `orders` over `window`, with `now` deciding what is still
    open; the deltas compare against the window of the same length before. -/
def summarise (A : Floats F) (orders : List (Order F)) (window : Window) (now : Int) :
    Activity F :=
  let current := Counts.over orders window
  let previous := Counts.over orders window.previous
  let abandoned := orders.countP fun order => window.contains order.createdAt
    && (order.status == .canceled && order.takenAt.isNone)
  { created := current.created
    completed := current.completed
    canceled := current.canceled
    completionRate := ratio A current.completed (current.completed + current.canceled)
    abandonmentRate := ratio A abandoned current.created
    openNow := orders.countP (Order.isOpen now)
    inProgressNow := orders.countP fun order => order.status == .inProgress
    createdDelta := growth A current.created previous.created
    completedDelta := growth A current.completed previous.completed }

/-- The seven metrics that are about the window. -/
def datedMetrics (A : Floats F) (scope : String) (activity : Activity F) : List (Metric F) :=
  [count scope "created" activity.created,
    count scope "completed" activity.completed,
    count scope "canceled" activity.canceled,
    ratioMetric A scope "completion_rate" activity.completionRate,
    ratioMetric A scope "abandonment_rate" activity.abandonmentRate,
    ratioMetric A scope "created_delta" activity.createdDelta,
    ratioMetric A scope "completed_delta" activity.completedDelta]

/-- All nine, the two about *now* last. -/
def activityMetrics (A : Floats F) (scope : String) (activity : Activity F) :
    List (Metric F) :=
  datedMetrics A scope activity
    ++ [count scope "open_now" activity.openNow,
      count scope "in_progress_now" activity.inProgressNow]

/-! ## Groups -/

/-- The currencies of `orders`, sorted. -/
def codesOf (orders : List (Order F)) : List String := keysOf (orders.map Order.fiatCode)

/-- `activity::slice` by currency: the orders of each code, in the order they
    came. -/
def sliceFiat (orders : List (Order F)) : List (String × List (Order F)) :=
  groups Order.fiatCode orders

end Stats
