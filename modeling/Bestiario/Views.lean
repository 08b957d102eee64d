import Bestiario.Disputes

/-! # Views

    `summary.rs`, `market.rs` with `market/ranking.rs`, `instances.rs` and
    `compare.rs` of `crates/stats/src`: the four reports that are computed over
    a window and have no shape over time. -/

namespace Stats

open Groups Wire Timestamp

variable {F : Type}

/-- `rfc3339`: RFC 3339 in UTC, or the number where there is no such date. -/
def rfc3339 (timestamp : Int) : String :=
  match fromTimestamp timestamp with
  | some _ => String.ofList (text timestamp)
  | none => toString timestamp

/-- An observed text, missing when there is none. -/
def textMetric (scope name : String) (value : Option String) : Metric F :=
  .observed (dotted scope name) (value.elim .missing .text)

/-! ## Summary -/

namespace Summary

/-- `ranking`: the three most frequent keys, ties by key. -/
def ranking (keys : List String) : Value F :=
  let counts := (keysOf keys).map fun key => (key, keys.count key)
  if counts.isEmpty then .missing
  else
    let ranked := counts.mergeSort fun a b =>
      decide (b.2 < a.2) || a.2 == b.2 && decide (a.1 ≤ b.1)
    .text (String.intercalate ", " ((ranked.take 3).map fun (key, n) =>
      key ++ " (" ++ toString n ++ ")"))

/-- `summary::report`. -/
def report (A : Floats F) (orders : List (Order F)) (disputes : Option DisputeData)
    (window : Window) (now : Int) : List (Metric F) :=
  let activity := summarise A orders window now
  let openDisputes := disputes.map fun disputes =>
    (Disputes.summarise A disputes window now).openNow.length
  let created := orders.filter fun order => window.contains order.createdAt
  let activeInstances := (keysOf (created.map Order.pubkey)).length
  [count "summary" "created" activity.created,
    count "summary" "completed" activity.completed,
    ratioMetric A "summary" "completion_rate" activity.completionRate,
    satsMetric "summary" "volume_sats" (observedSats orders window),
    count "summary" "active_instances" activeInstances,
    .observed "summary.top_fiat" (ranking (created.map Order.fiatCode)),
    .observed "summary.top_methods" (ranking (created.flatMap Order.paymentMethods)),
    .observed "summary.open_disputes" (openDisputes.elim .missing fun n => .count n)]

end Summary

/-! ## Market -/

/-- `Ranking`: keys by weight, with how concentrated they are. -/
structure Ranking (F : Type) where
  entries : List (String × Int)
  top3Share : F
  hhi : F

namespace Ranking

/-- `Ranking::new`: heaviest first, ties by key, what weighs nothing left out. -/
def new (A : Floats F) (weights : List (String × Int)) : Ranking F :=
  let entries := (weights.filter fun entry => decide (entry.2 > 0)).mergeSort fun a b =>
    decide (b.2 < a.2) || a.2 == b.2 && decide (a.1 ≤ b.1)
  let total := (entries.map Prod.snd).sum
  let share (weight : Int) : F := A.div (A.ofInt weight) (A.ofInt total)
  if total > 0 then
    ⟨entries, sumFloat A ((entries.take 3).map fun entry => share entry.2),
      sumFloat A (entries.map fun entry => A.mul (share entry.2) (share entry.2))⟩
  else ⟨entries, A.ofInt 0, A.ofInt 0⟩

def top3 (ranking : Ranking F) (unit : String) : String :=
  String.intercalate ", " ((ranking.entries.take 3).map fun (key, weight) =>
    key ++ " " ++ toString weight ++ unit)

/-- `tally`: the weight of each key over `orders`. -/
def tally (A : Floats F) (orders : List (Order F)) (keys : Order F → List String)
    (weight : Order F → Int) : Ranking F :=
  let weighed := orders.flatMap fun order => (keys order).map fun key => (key, weight order)
  new A ((groups Prod.fst weighed).map fun (key, group) => (key, (group.map Prod.snd).sum))

end Ranking

/-- The market structure of one window. -/
structure Market (F : Type) where
  orders : Nat
  buyOrdersShare : Option F
  buyVolumeShare : Option F
  premiumAvg : Option F
  premiumP50 : Option F
  premiumP50Buy : Option F
  premiumP50Sell : Option F
  premiumSpread : Option F
  marketPriceShare : Option F
  rangeShare : Option F
  rangeWidthAvg : Option F
  fiatsByOrders : Ranking F
  fiatsByVolume : Ranking F
  methodsByOrders : Ranking F
  methodsByVolume : Ranking F
  newFiats : List String
  newMethods : List String

namespace Market

/-- `first_sightings`: the keys of the window that no earlier order had. -/
def firstSightings (orders : List (Order F)) (window : Window)
    (keys : Order F → List String) : List String :=
  let seenBefore := (orders.filter fun order => decide (order.createdAt < window.from')).flatMap
    keys
  keysOf (((orders.filter fun order => window.contains order.createdAt).flatMap keys).filter
    fun key => !seenBefore.contains key)

/-- The mean of some values, if there are any. -/
def mean (A : Floats F) (values : List F) : Option F :=
  if values.isEmpty then none
  else some (A.div (sumFloat A values) (A.ofInt values.length))

/-- `market::summarise`. -/
def summarise (A : Floats F) (orders : List (Order F)) (window : Window) : Market F :=
  let book := orders.filter fun order => window.contains order.createdAt
  let trades := completedIn orders window
  let sats := (trades.map Order.amountSats).sum
  let buySats := ((trades.filter fun order => order.direction == .buy).map Order.amountSats).sum
  let premiums (side : Direction) : List F :=
    (trades.filter fun order => order.direction == side).map Order.premium
  let all := trades.map Order.premium
  let p50Buy := percentileFloat A (premiums .buy) (p50 A)
  let p50Sell := percentileFloat A (premiums .sell) (p50 A)
  let ranges := (book.filterMap Order.fiatRange).filter fun range => A.lt (A.ofInt 0) range.2
  let fiat (order : Order F) : List String := [order.fiatCode]
  let methods (order : Order F) : List String := order.origin.paymentMethods
  { orders := book.length
    buyOrdersShare := ratio A (book.countP fun order => order.direction == .buy) book.length
    buyVolumeShare := if sats > 0 then some (A.div (A.ofInt buySats) (A.ofInt sats)) else none
    premiumAvg := mean A all
    premiumP50 := percentileFloat A all (p50 A)
    premiumP50Buy := p50Buy
    premiumP50Sell := p50Sell
    premiumSpread := p50Sell.bind fun sell => p50Buy.map fun buy => A.sub sell buy
    marketPriceShare := ratio A (book.countP Order.isMarketPrice) book.length
    rangeShare := ratio A (book.countP fun order => order.fiatRange.isSome) book.length
    rangeWidthAvg := mean A (ranges.map fun (low, high) => A.div (A.sub high low) high)
    fiatsByOrders := Ranking.tally A book fiat fun _ => 1
    fiatsByVolume := Ranking.tally A trades fiat Order.amountSats
    methodsByOrders := Ranking.tally A book methods fun _ => 1
    methodsByVolume := Ranking.tally A trades methods Order.amountSats
    newFiats := firstSightings orders window fiat
    newMethods := firstSightings orders window methods }

/-- A list as the report prints it: eight of them, and how many more. -/
def listed (items : List String) : Option String :=
  if items.isEmpty then none
  else if items.length ≤ 8 then some (String.intercalate ", " items)
  else some (String.intercalate ", " (items.take 8) ++ ", +" ++ toString (items.length - 8)
    ++ " more")

/-- `market::report` over the whole network. -/
def report (A : Floats F) (orders : List (Order F)) (window : Window) : List (Metric F) :=
  let market := summarise A orders window
  let percent (name : String) (value : Option F) : Metric F :=
    ratioMetric A "market" name (value.map fun premium => A.div premium (A.ofInt 100))
  let ranked (name : String) (ranking : Ranking F) (unit : String) : Metric F :=
    textMetric "market" name (if ranking.entries.isEmpty then none else some (ranking.top3 unit))
  let concentration (name what : String) (ranking : Ranking F) : List (Metric F) :=
    let present (value : F) : Option F := if ranking.entries.isEmpty then none else some value
    [ratioMetric A "market" (name ++ "_top3_" ++ what ++ "_share") (present ranking.top3Share),
      ratioMetric A "market" (name ++ "_hhi_" ++ what) (present ranking.hhi)]
  [count "market" "orders" market.orders,
    ratioMetric A "market" "buy_orders_share" market.buyOrdersShare,
    ratioMetric A "market" "buy_volume_share" market.buyVolumeShare,
    percent "premium_avg" market.premiumAvg,
    percent "premium_p50" market.premiumP50,
    percent "premium_p50_buy" market.premiumP50Buy,
    percent "premium_p50_sell" market.premiumP50Sell,
    percent "premium_spread" market.premiumSpread,
    ratioMetric A "market" "market_price_share" market.marketPriceShare,
    ratioMetric A "market" "range_share" market.rangeShare,
    ratioMetric A "market" "range_width_avg" market.rangeWidthAvg,
    ranked "fiat_top3_by_orders" market.fiatsByOrders ""]
    ++ concentration "fiat" "orders" market.fiatsByOrders
    ++ [ranked "fiat_top3_by_volume" market.fiatsByVolume " sats"]
    ++ concentration "fiat" "volume" market.fiatsByVolume
    ++ [ranked "method_top3_by_orders" market.methodsByOrders "",
      ranked "method_top3_by_volume" market.methodsByVolume " sats",
      textMetric "market" "new_fiats" (listed market.newFiats),
      textMetric "market" "new_methods" (listed market.newMethods)]

end Market

/-! ## Instances -/

/-- One instance as its last profile describes it. -/
structure Profile (F : Type) where
  pubkey : String
  name : Option String
  label : String
  mostroVersion : Option String
  protocolVersion : Option String
  fee : Option F
  minOrderSats : Option Int
  maxOrderSats : Option Int
  fiatCurrencies : List String
  lnNetworks : List String
  bondEnabled : Option Bool
  firstSeenAt : Int
  lastSeenAt : Int

namespace Profile

/-- `SILENT_AFTER_SECS`. -/
def silentAfterSecs : Int := 7 * 86400

def silentFor (profile : Profile F) (now : Int) : Int := wrapI64 (now - profile.lastSeenAt)

/-- `profile_metrics`. -/
def metrics (A : Floats F) (scope : String) (profile : Profile F) (now : Int) :
    List (Metric F) :=
  let joined (values : List String) : Option String :=
    if values.isEmpty then none else some (String.intercalate "," values)
  [textMetric scope "pubkey" (some profile.pubkey),
    textMetric scope "name" profile.name,
    textMetric scope "mostro_version" profile.mostroVersion,
    textMetric scope "protocol_version" profile.protocolVersion,
    ratioMetric A scope "fee" profile.fee,
    satsMetric scope "min_order" profile.minOrderSats,
    satsMetric scope "max_order" profile.maxOrderSats,
    textMetric scope "fiat" (joined profile.fiatCurrencies),
    textMetric scope "ln_networks" (joined profile.lnNetworks),
    textMetric scope "bond"
      (profile.bondEnabled.map fun enabled => if enabled then "enabled" else "disabled"),
    textMetric scope "first_seen" (some (rfc3339 profile.firstSeenAt)),
    textMetric scope "last_seen" (some (rfc3339 profile.lastSeenAt)),
    secondsMetric scope "silent_for" (some (profile.silentFor now)),
    textMetric scope "silent"
      (some (if profile.silentFor now > silentAfterSecs then "yes" else "no"))]

end Profile

/-- `instances::list`. -/
def instancesList (A : Floats F) (profiles : List (Profile F)) (orders : List (Order F))
    (window : Window) (now : Int) : List (Metric F) :=
  profiles.flatMap fun profile =>
    let scope := "instances." ++ profile.label
    let created := orders.countP fun order =>
      order.pubkey == profile.pubkey && window.contains order.createdAt
    profile.metrics A scope now ++ [count scope "created" created]

/-! ## Compare -/

/-- `compare::report`: one row per instance. -/
def compareReport (A : Floats F) (profiles : List (Profile F)) (orders : List (Order F))
    (fees : DevFeeData F) (disputes : Option DisputeData) (window : Window) (now : Int) :
    List (Metric F) :=
  profiles.flatMap fun profile =>
    let scope := "compare." ++ profile.label
    let own := orders.filter fun order => order.instance' == profile.label
    let activity := summarise A own window now
    let sent := (fees.ofInstance profile.label).elim 0 fun fees =>
      (DevFees.summarise A fees window).totalSats
    let disputeRate := (disputes.bind fun disputes => disputes.ofInstance profile.label).bind
      fun disputes => (Disputes.summarise A disputes window now).rate
    [count scope "completed" activity.completed,
      satsMetric scope "volume_sats" (observedSats own window),
      ratioMetric A scope "completion_rate" activity.completionRate,
      ratioMetric A scope "fee" profile.fee,
      .observed (dotted scope "dev_fees_sats") (.sats sent),
      ratioMetric A scope "dispute_rate" disputeRate,
      textMetric scope "version" profile.mostroVersion]

end Stats
