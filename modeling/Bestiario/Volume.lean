import Bestiario.Activity
import Bestiario.RateBook

/-! # Volume

    `crates/stats/src/volume.rs` and `volume/converted.rs`: what the orders
    completed in a window were worth, in sats, in each currency they named, and
    in one currency at the rates of the day.

    Completion dates an order, as it does in the activity block, so the orders
    counted here and there are the same ones. -/

namespace Stats

open Keyed Groups

variable {F : Type}

/-- A percentile of amounts: `partial_cmp` on `f64`. -/
def percentileFloat (A : Floats F) (samples : List F) (p : F) : Option F :=
  percentile A (fun a b => A.lt a b || A.eq a b) samples p

/-- `∑` over `f64`, in the order given. -/
def sumFloat (A : Floats F) (values : List F) : F := values.foldl A.add (A.ofInt 0)

/-! ## Sats -/

/-- `BUCKETS`: the sizes a ticket is filed under, by their greatest. -/
def sizeBuckets : List (String × Option Int) :=
  [("lt_10k", some 9999), ("10k_50k", some 50000), ("50k_200k", some 200000),
    ("200k_1m", some 1000000), ("gt_1m", none)]

/-- `bucket`: the first that holds the size; the last is open. -/
def sizeBucket (size : Int) : Nat :=
  sizeBuckets.findIdx fun bucket => bucket.2.all fun upper => decide (size ≤ upper)

/-- `mean_sats`: rounded half up. -/
def meanSats (sizes : List Int) : Option Int :=
  if sizes.isEmpty then none
  else
    let n : Int := sizes.length
    let mean := (2 * sizes.sum + n) / (2 * n)
    if -2 ^ 63 ≤ mean ∧ mean < 2 ^ 63 then some mean else none

/-- `completed`: the orders that reached success inside the window. -/
def completedIn (orders : List (Order F)) (window : Window) : List (Order F) :=
  (orders.filter fun order => order.status == .success).filter fun order =>
    order.successAt.any window.contains

/-- `observed_sats`. -/
def observedSats (orders : List (Order F)) (window : Window) : Option Int :=
  sumSats ((completedIn orders window).map Order.amountSats)

/-! ## Currencies -/

/-- The figures of one currency whose amounts add up to a number. -/
structure FiatFigures (F : Type) where
  total : F
  ticketAvg : F
  ticketP50 : F
  ticketP90 : F

/-- One currency's share of the volume. -/
structure FiatVolume (F : Type) where
  orders : Nat
  completed : Nat
  sats : Option Int
  figures : Option (FiatFigures F)

/-- `fiat_volume`. -/
def fiatVolume (A : Floats F) (amounts : List F) (sats : List Int) : FiatVolume F :=
  let total := sumFloat A amounts
  { orders := amounts.length
    completed := sats.length
    sats := sumSats sats
    figures :=
      if A.isFinite total && !amounts.isEmpty then do
        -- `expect`: a finite sum has no sample that does not compare.
        let ticketP50 ← percentileFloat A amounts (p50 A)
        let ticketP90 ← percentileFloat A amounts (p90 A)
        return ⟨total, A.div total (A.ofInt amounts.length), ticketP50, ticketP90⟩
      else none }

/-- The volume of one window. -/
structure Volume (F : Type) where
  completed : Nat
  sats : Option Int
  ticketAvg : Option Int
  ticketP50 : Option Int
  ticketP90 : Option Int
  largest : Option Int
  buckets : List Nat
  buySats : Option Int
  sellSats : Option Int
  fiat : List (String × FiatVolume F)

namespace Volume

/-- `volume::summarise`. -/
def summarise (A : Floats F) (orders : List (Order F)) (window : Window) : Volume F :=
  let done := completedIn orders window
  let sizes := done.map Order.amountSats
  let side (direction : Direction) : Option Int :=
    sumSats ((done.filter fun order => order.direction == direction).map Order.amountSats)
  { completed := done.length
    sats := sumSats sizes
    ticketAvg := meanSats sizes
    ticketP50 := percentileInt A sizes (p50 A)
    ticketP90 := percentileInt A sizes (p90 A)
    largest := sizes.max?
    buckets := sizes.foldl (fun buckets size => buckets.modify (sizeBucket size) (· + 1))
      [0, 0, 0, 0, 0]
    buySats := side .buy
    sellSats := side .sell
    fiat := (groups Order.fiatCode done).map fun (code, group) =>
      (code, fiatVolume A (group.filterMap Order.fiatAmount) (group.map Order.amountSats)) }

/-- The seven rows of one currency. -/
def fiatMetrics (A : Floats F) (scope code : String) (fiat : FiatVolume F) : List (Metric F) :=
  let figure (pick : FiatFigures F → F) : Value F :=
    fiat.figures.elim .missing fun figures => Value.ofFiat A (pick figures) code
  let observed (name : String) (value : Value F) : Metric F :=
    .observed (dotted scope ("fiat." ++ code ++ "." ++ name)) value
  [observed "total" (figure FiatFigures.total),
    observed "orders" (.count fiat.orders),
    observed "sats" (fiat.sats.elim .missing .sats),
    observed "completed" (.count fiat.completed),
    observed "ticket_avg" (figure FiatFigures.ticketAvg),
    observed "ticket_p50" (figure FiatFigures.ticketP50),
    observed "ticket_p90" (figure FiatFigures.ticketP90)]

/-- The rows every window has, whatever completed in it. -/
def fixedMetrics (scope : String) (volume : Volume F) : List (Metric F) :=
  [satsMetric scope "sats" volume.sats,
    count scope "completed" volume.completed,
    satsMetric scope "ticket_avg" volume.ticketAvg,
    satsMetric scope "ticket_p50" volume.ticketP50,
    satsMetric scope "ticket_p90" volume.ticketP90,
    satsMetric scope "largest" volume.largest]
    ++ (sizeBuckets.zip volume.buckets).map (fun (bucket, n) =>
      count scope ("size." ++ bucket.1) n)
    ++ [satsMetric scope "buy_sats" volume.buySats,
      satsMetric scope "sell_sats" volume.sellSats]

/-- `volume::metrics`. -/
def metrics (A : Floats F) (scope : String) (volume : Volume F) : List (Metric F) :=
  fixedMetrics scope volume
    ++ volume.fiat.flatMap fun (code, fiat) => fiatMetrics A scope code fiat

end Volume

/-! ## At the rates of the day -/

open RateBook

/-- What was priced at one other instance's rate. -/
structure Borrowed where
  orders : Nat := 0
  sats : Option Int := some 0

/-- The volume of one window in one currency. -/
structure Converted (F : Type) where
  code : String
  total : Option F
  priced : Nat := 0
  unpriced : Nat := 0
  unpricedSats : Option Int := some 0
  unusable : Nat := 0
  unusableSats : Option Int := some 0
  borrowed : Table String Borrowed := ∅
  rateAgeMaxSecs : Option Int := none

/-- `add_sats`: nothing once the sum leaves `i64`. -/
def addSats (total : Option Int) (sats : Int) : Option Int :=
  (total.map (· + sats)).filter fun sum => -2 ^ 63 ≤ sum && sum < 2 ^ 63

/-- `RateQuote::convert_sats`. -/
def convertSats (A : Floats F) (quote : RateQuote F) (sats : Int) : F :=
  A.mul (A.div (A.ofInt sats) (A.ofInt 100000000)) quote.rate

namespace Converted

/-- One completed order, priced at the instant it settled. -/
def step (A : Floats F) (book : Book F) (code : String) (converted : Converted F)
    (order : Order F) : Converted F :=
  match order.successAt with
  -- `expect`: completed orders have a `success_at`.
  | none => converted
  | some settledAt =>
    match book.rateAt order.pubkey code settledAt with
    | none =>
        { converted with
          unpriced := converted.unpriced + 1
          unpricedSats := addSats converted.unpricedSats order.amountSats }
    | some quote =>
        let value := convertSats A quote order.amountSats
        if !A.isFinite value then
          { converted with
            unusable := converted.unusable + 1
            unusableSats := addSats converted.unusableSats order.amountSats }
        else
          { converted with
            priced := converted.priced + 1
            total := (converted.total.map fun total => A.add total value).filter A.isFinite
            borrowed := match quote.source with
              | .fallback pubkey =>
                  let borrowed := (converted.borrowed[pubkey]?).getD {}
                  converted.borrowed.insert pubkey
                    ⟨borrowed.orders + 1, addSats borrowed.sats order.amountSats⟩
              | .ownInstance => converted.borrowed
            rateAgeMaxSecs :=
              some (converted.rateAgeMaxSecs.elim quote.ageSecs (max · quote.ageSecs)) }

/-- `converted::convert`. -/
def convert (A : Floats F) (orders : List (Order F)) (window : Window) (book : Book F)
    (code : String) : Converted F :=
  (completedIn orders window).foldl (step A book code) { code, total := some (A.ofInt 0) }

/-- `Converted::fallbacks`. -/
def fallbacks (converted : Converted F) : Nat :=
  (converted.borrowed.toList.map fun entry => entry.2.orders).sum

/-- The first eight characters. -/
def short (pubkey : String) : String := String.ofList (pubkey.toList.take 8)

def satsText (sats : Option Int) : String :=
  sats.elim "more sats than a number can hold" fun sats => toString sats ++ " sats"

/-- `qualification`: what the total rests on. -/
def qualification (converted : Converted F) : String :=
  let age := match converted.rateAgeMaxSecs with
    | some age => "rate_age_secs ≤ " ++ toString age
    | none => "no rate used"
  let sources := String.intercalate ", " (converted.borrowed.toList.map fun (pubkey, borrowed) =>
    short pubkey ++ " (" ++ toString borrowed.orders ++ ")")
  String.intercalate "; " ([age]
    ++ (if converted.borrowed.isEmpty then []
      else [toString converted.fallbacks ++ " at another instance's rate: " ++ sources])
    ++ (if converted.unpriced > 0 then
      [toString converted.unpriced ++ " with no usable rate within " ++ toString maxAgeSecs
        ++ "s (" ++ satsText converted.unpricedSats ++ " excluded)"] else [])
    ++ (if converted.unusable > 0 then
      [toString converted.unusable ++ " unusable: the conversion is not a finite number ("
        ++ satsText converted.unusableSats ++ " excluded)"] else [])
    ++ (if converted.total.isNone then
      ["the sum of the priced orders is not a finite number"] else []))

/-- `converted::metrics`. -/
def metrics (A : Floats F) (scope : String) (converted : Converted F) : List (Metric F) :=
  let inferred (name : String) (value : Value F) (error : String) : Metric F :=
    .inferred (dotted scope ("in." ++ converted.code ++ "." ++ name)) value error
  let excluded := converted.unpriced + converted.unusable
  let total := match converted.total with
    | some total =>
        if converted.priced > 0 ∨ excluded = 0 then Value.ofFiat A total converted.code
        else .missing
    | none => .missing
  [inferred "total" total converted.qualification,
    inferred "orders" (.count converted.priced)
      "orders with a rate published at or before success_at",
    inferred "unpriced_sats" (converted.unpricedSats.elim .missing .sats)
      "sats of the orders with no usable rate at success_at; not in the total",
    inferred "rate_age_max" (converted.rateAgeMaxSecs.elim .missing .seconds)
      "age of the oldest snapshot used"]

end Converted

end Stats
