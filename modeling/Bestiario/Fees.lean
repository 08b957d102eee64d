import Bestiario.Volume

/-! # Dev fees

    `crates/stats/src/dev_fees.rs` and `dev_fees/implied.rs`: the fees paid in a
    window, and the volume they imply when each is divided by the fee in force
    and the share of it that is passed on.

    A fee that a second one for the same order came after counts once; which
    one is canonical was decided when they were stored. -/

namespace Stats

open Keyed Groups Wire

variable {F : Type}

/-- One dev fee, with what is known of the order it names. -/
structure Fee (F : Type) where
  eventId : String
  orderId : String
  pubkey : String
  instance' : String
  createdAt : Int
  amountSats : Int
  isDuplicate : Bool
  orderKnown : Bool
  settledAt : Option Int
  feeInForce : Option F
  settledAmountSats : Option Int

/-- One settled order, and whether it owed and paid a fee. -/
structure Settlement where
  orderId : String
  instance' : String
  successAt : Int
  hasFee : Bool
  chargesFee : Option Bool

/-- What the fee figures are computed from. -/
structure DevFeeData (F : Type) where
  fees : List (Fee F)
  settlements : List Settlement

/-- The fees of one window. -/
structure DevFees (F : Type) where
  totalSats : Int
  paid : Nat
  coverage : Option F
  latencyP50 : Option Int
  latencyP90 : Option Int
  duplicates : Nat
  orphans : Nat

/-- An `i64` sum in a release build. -/
def sumI64 (values : List Int) : Int := wrapI64 values.sum

namespace DevFeeData

/-- `canonical`: the fees of the window that are not a second one. -/
def canonical (data : DevFeeData F) (window : Window) : List (Fee F) :=
  data.fees.filter fun fee => !fee.isDuplicate && window.contains fee.createdAt

/-- `dev_fees::by_instance`: the part of the data filed under one label. -/
def ofInstance (data : DevFeeData F) (label : String) : Option (DevFeeData F) :=
  let own : DevFeeData F := {
    fees := data.fees.filter fun fee => fee.instance' == label
    settlements := data.settlements.filter fun settlement => settlement.instance' == label }
  if own.fees.isEmpty && own.settlements.isEmpty then none else some own

end DevFeeData

namespace DevFees

/-- `dev_fees::summarise`. -/
def summarise (A : Floats F) (data : DevFeeData F) (window : Window) : DevFees F :=
  let doublyPaid := (data.fees.filter Fee.isDuplicate).map Fee.orderId
  let canonical := data.canonical window
  let latencies := canonical.filterMap fun fee =>
    fee.settledAt.map fun settled => wrapI64 (fee.createdAt - settled)
  let owed := (data.settlements.filter fun settlement =>
    window.contains settlement.successAt).filter fun settlement =>
      settlement.chargesFee == some true
  let covered := owed.countP Settlement.hasFee
  { totalSats := sumI64 (canonical.map Fee.amountSats)
    paid := canonical.length
    coverage := ratio A covered owed.length
    latencyP50 := percentileInt A latencies (p50 A)
    latencyP90 := percentileInt A latencies (p90 A)
    duplicates := canonical.countP fun fee => doublyPaid.contains fee.orderId
    orphans := canonical.countP fun fee => !fee.orderKnown }

/-- `dev_fees::metrics`. -/
def metrics (A : Floats F) (scope : String) (fees : DevFees F) : List (Metric F) :=
  [.observed (dotted scope "total_sats") (.sats fees.totalSats),
    count scope "paid" fees.paid,
    ratioMetric A scope "coverage" fees.coverage,
    secondsMetric scope "latency_p50" fees.latencyP50,
    secondsMetric scope "latency_p90" fees.latencyP90,
    count scope "duplicates" fees.duplicates,
    count scope "orphans" fees.orphans]

end DevFees

/-! ## What the fees imply -/

/-- The running figures of `implied::summarise`. -/
structure Implied (F : Type) where
  inverted : Nat := 0
  noFeeInForce : Nat := 0
  zeroFee : Nat := 0
  assumedPcts : List F := []
  withFeeOrders : Nat := 0
  matched : Nat := 0
  zeroAmountOrders : Nat := 0
  volume : F
  error : F
  matchedVolume : F
  matchedError : F
  observed : Int := 0
  matchedObservedSats : Int := 0

namespace Implied

variable (A : Floats F)

/-- `divisor`: the fee in force times the share, when that divides. -/
def divisor (fee : Fee F) (pct : F) : Option F :=
  (fee.feeInForce.map fun inForce => A.mul inForce pct).filter fun divisor =>
    A.isFinite divisor && A.lt (A.ofInt 0) divisor

/-- One canonical fee. -/
def step (devFeePct : String → F) (implied : Implied F) (fee : Fee F) : Implied F :=
  let implied := match fee.settledAmountSats with
    | some amount =>
        { implied with
          withFeeOrders := implied.withFeeOrders + 1
          observed := wrapI64 (implied.observed + amount) }
    | none => implied
  let pct := devFeePct fee.pubkey
  match divisor A fee pct with
  | none =>
      match fee.feeInForce with
      | none => { implied with noFeeInForce := implied.noFeeInForce + 1 }
      | some _ => { implied with zeroFee := implied.zeroFee + 1 }
  | some divisor =>
      let inverse := A.div (A.ofInt fee.amountSats) divisor
      let one := A.div (A.ofInt 1) divisor
      let implied := { implied with
        assumedPcts := if implied.assumedPcts.any (A.eq · pct) then implied.assumedPcts
          else implied.assumedPcts ++ [pct]
        volume := A.add implied.volume inverse
        error := A.add implied.error one
        inverted := implied.inverted + 1 }
      match fee.settledAmountSats with
      | some amount =>
          if amount > 0 then
            { implied with
              matched := implied.matched + 1
              matchedVolume := A.add implied.matchedVolume inverse
              matchedError := A.add implied.matchedError one
              matchedObservedSats := wrapI64 (implied.matchedObservedSats + amount) }
          else { implied with zeroAmountOrders := implied.zeroAmountOrders + 1 }
      | none => implied

/-- `implied::summarise`. -/
def summarise (data : DevFeeData F) (window : Window) (devFeePct : String → F) : Implied F :=
  let zero := A.ofInt 0
  let implied := (data.canonical window).foldl (step A devFeePct)
    { volume := zero, error := zero, matchedVolume := zero, matchedError := zero }
  -- `total_cmp`: every share that divides is an ordinary positive number.
  { implied with assumedPcts := implied.assumedPcts.mergeSort fun a b => A.lt a b || A.eq a b }

def notInvertible (implied : Implied F) : Nat := implied.noFeeInForce + implied.zeroFee

/-- `error_sats`. -/
def errorSats (implied : Implied F) : Int := A.ceil implied.error

/-- `volume_sats`: nothing when there were fees and none could be inverted. -/
def volumeSats (implied : Implied F) : Option Int :=
  if implied.inverted = 0 ∧ implied.notInvertible > 0 then none
  else some (A.round implied.volume)

/-- `with_fee_volume_sats`. -/
def withFeeVolumeSats (implied : Implied F) : Option Int :=
  if implied.withFeeOrders > 0 then some implied.observed else none

/-- `implied_vs_observed`. -/
def impliedVsObserved (implied : Implied F) : Option F :=
  if implied.matchedObservedSats > 0 then
    some (A.sub (A.div (A.ofInt (A.round implied.matchedVolume))
      (A.ofInt implied.matchedObservedSats)) (A.ofInt 1))
  else none

/-- `implied_vs_observed_error`. -/
def impliedVsObservedError (implied : Implied F) : Option F :=
  if implied.matchedObservedSats > 0 then
    some (A.div (A.ofInt (A.ceil implied.matchedError)) (A.ofInt implied.matchedObservedSats))
  else none

/-- `fees`: `1 fee`, `n fees`. -/
def feesText (n : Nat) : String := if n = 1 then "1 fee" else toString n ++ " fees"

/-- `shares`: up to three are listed, more are given by their bounds. -/
def shares (pcts : List F) : String :=
  match decide (pcts.length > 3), pcts.head?, pcts.getLast? with
  | true, some low, some high =>
      A.fixed 2 low ++ "–" ++ A.fixed 2 high ++ " across " ++ toString pcts.length
        ++ " instances"
  | _, _, _ => String.intercalate "/" (pcts.map (A.fixed 2))

/-- `uninvertible`. -/
def uninvertible (implied : Implied F) : String :=
  String.intercalate ", "
    ((if implied.noFeeInForce > 0 then
      [feesText implied.noFeeInForce ++ " with no fee in force"] else [])
    ++ (if implied.zeroFee > 0 then
      [feesText implied.zeroFee ++ " charging a zero fee"] else []))

/-- `qualification`. -/
def qualification (implied : Implied F) : String :=
  let total := implied.inverted + implied.notInvertible
  let lowerBound := if implied.inverted = 0 then ""
    else "lower bound: " ++ toString implied.inverted ++ " of " ++ toString total
      ++ " fees inverted; "
  String.intercalate "; "
    ([if implied.inverted = 0 then "no fee inverted"
      else "±" ++ toString (errorSats A implied)
        ++ " sats (worst case: ±1 sat per fee × 1/(fee×pct))"]
    ++ (if implied.assumedPcts.isEmpty then []
      else ["pct assumed " ++ shares A implied.assumedPcts])
    ++ (if implied.notInvertible > 0 then [lowerBound ++ implied.uninvertible] else []))

/-- `comparison`. -/
def comparison (implied : Implied F) : String :=
  match impliedVsObservedError A implied with
  | none =>
      if implied.zeroAmountOrders > 0 then
        "nothing to compare against: " ++ feesText implied.zeroAmountOrders
          ++ " name a settled order known at amt = 0 (market price, never amended)"
      else if implied.withFeeOrders = 0 then "no fee names a settled order"
      else "no fee both inverted and naming a settled order"
  | some error =>
      String.intercalate "; "
        (["implied / observed − 1 over the " ++ feesText implied.matched
            ++ " whose order is known and settled; positive means the real dev fee share is "
            ++ "above the assumed",
          "±" ++ A.fixed 4 error ++ " from the rounding of those fees"]
        ++ (if implied.zeroAmountOrders > 0 then
          [feesText implied.zeroAmountOrders
            ++ " left out at amt = 0 (market price, never amended)"] else []))

/-- `implied::metrics`. -/
def metrics (scope : String) (implied : Implied F) : List (Metric F) :=
  [.inferred (dotted scope "implied_volume") ((volumeSats A implied).elim .missing .sats)
      (qualification A implied),
    satsMetric scope "with_fee_volume" implied.withFeeVolumeSats,
    .inferred (dotted scope "implied_vs_observed")
      ((impliedVsObserved A implied).elim .missing (Value.ofRatio A)) (comparison A implied)]

end Implied

end Stats
