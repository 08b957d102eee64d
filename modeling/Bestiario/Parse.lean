import Bestiario.Wire

/-! # One parser per kind

    `ingest/parse/{order,dev_fee,dispute,info,rates,relay_list}.rs`: tags in,
    typed value out, and an error naming the offending tag otherwise.  A parser
    decides whether an event is well formed, never whether it is wanted.

    The two facts the pipeline's invariants rest on are at the end: a parsed
    value carries the id and the publisher of the event it came from, and a
    kind is read by one parser only. -/

namespace Parse

open Keyed Wire

variable {F : Type}

/-! ## Orders (kind 38383) -/

/-- Which side the maker is on: the `k` tag. -/
inductive Direction where
  | buy
  | sell
  deriving DecidableEq, Repr

/-- `Direction::parse`. -/
def Direction.parse (value : String) : Except (ParseError F) Direction :=
  match value with
  | "buy" => .ok .buy
  | "sell" => .ok .sell
  | _ => .error (.unknownValue "k" value "`buy` or `sell`")

/-- `Direction::as_str`. -/
def Direction.asStr : Direction → String
  | .buy => "buy"
  | .sell => "sell"

/-- The four statuses that reach the wire. -/
inductive Status where
  | pending
  | inProgress
  | success
  | canceled
  deriving DecidableEq, Repr

/-- `Status::parse`. -/
def Status.parse (value : String) : Except (ParseError F) Status :=
  match value with
  | "pending" => .ok .pending
  | "in-progress" => .ok .inProgress
  | "success" => .ok .success
  | "canceled" => .ok .canceled
  | _ => .error (.unknownValue "s" value
      "`pending`, `in-progress`, `success` or `canceled`")

/-- `Status::as_str`. -/
def Status.asStr : Status → String
  | .pending => "pending"
  | .inProgress => "in-progress"
  | .success => "success"
  | .canceled => "canceled"

/-- One amount, or the bounds of a range order. -/
inductive FiatAmount (F : Type) where
  | fixed (amount : F)
  | range (min max : F)
  deriving DecidableEq

/-- One published version of an order. -/
structure OrderVersion (F : Type) where
  eventId : String
  orderId : String
  pubkey : String
  createdAt : Int
  direction : Direction
  status : Status
  fiatCode : String
  amountSats : Int
  fiat : FiatAmount F
  paymentMethods : List String
  premium : F
  network : Option Network
  expiresAt : Int
  orderCreatedAt : Option Int
  deriving DecidableEq

/-- `fiat_amount`: finite, and never negative. -/
def fiatAmount (X : Externals F) (value expected : String) :
    Except (ParseError F) F := do
  nonNegativeF64 X "fa" (← finite X "fa" value expected) expected

/-- `parse_fiat_amount`: one value is an amount, two are a range. -/
def parseFiatAmount (X : Externals F) (e : Event) :
    Except (ParseError F) (FiatAmount F) := do
  match ← tagValues e "fa" with
  | none => .error (.missingTag "fa")
  | some [] => .error (.emptyTag "fa")
  | some [amount] => return .fixed (← fiatAmount X amount "a fiat amount")
  | some [min, max] => do
      let min ← fiatAmount X min "the minimum of a range"
      let max ← fiatAmount X max "the maximum of a range"
      if X.lt max min then .error (.invertedRange "fa" min max)
      else return .range min max
  | some values => .error (.wrongValueCount "fa" values.length
      "one amount, or a `[min, max]` pair")

/-- `parse_payment_methods`: one value per method, all in a single tag. -/
def parsePaymentMethods (e : Event) : Except (ParseError F) (List String) := do
  match ← tagValues e "pm" with
  | none => .error (.missingTag "pm")
  | some [] => .error (.emptyTag "pm")
  | some values => values.mapM fun method => nonBlank "pm" method "a payment method"

/-- `order::parse`. -/
def parseOrder (X : Externals F) (e : Event) :
    Except (ParseError F) (OrderVersion F) := do
  expectKind e orderKind
  expectDiscriminator e "order"
  let orderId ← uuid X "d" (← required e "d")
  let direction ← Direction.parse (← required e "k")
  let status ← Status.parse (← required e "s")
  let fiatCode ← required e "f"
  let amount ← number parseI64 "amt" (← required e "amt") "an amount in sats"
  let amountSats ← nonNegative "amt" amount "an amount in sats"
  let fiat ← parseFiatAmount X e
  let paymentMethods ← parsePaymentMethods e
  let premium ← finite X "premium" (← required e "premium") "a percentage"
  let network ← optionalNetwork e
  let expiry ← number parseI64 "expires_at" (← required e "expires_at")
    "a unix timestamp"
  let expiresAt ← nonNegative "expires_at" expiry "a unix timestamp"
  let orderCreatedAt ← publishedAt e
  return {
    eventId := e.id, orderId, pubkey := e.pubkey, createdAt := e.at, direction,
    status, fiatCode, amountSats, fiat, paymentMethods, premium, network,
    expiresAt, orderCreatedAt }

/-! ## Dev fees (kind 8383) -/

/-- One dev-fee payment. -/
structure DevFee where
  eventId : String
  pubkey : String
  orderId : String
  createdAt : Int
  amountSats : Int
  paymentHash : String
  destination : Option String
  network : Option Network
  deriving DecidableEq, Repr

/-- `dev_fee::parse`. -/
def parseDevFee (X : Externals F) (e : Event) : Except (ParseError F) DevFee := do
  expectKind e devFeeKind
  expectDiscriminator e "dev-fee-payment"
  let orderId ← uuid X "order-id" (← required e "order-id")
  let amount ← number parseI64 "amount" (← required e "amount") "an amount in sats"
  let amountSats ← nonNegative "amount" amount "an amount in sats"
  let paymentHash ← required e "hash"
  let destination ← optional e "destination"
  let network ← optionalNetwork e
  return {
    eventId := e.id, pubkey := e.pubkey, orderId, createdAt := e.at, amountSats,
    paymentHash, destination, network }

/-! ## Disputes (kind 38386) -/

/-- Who raised the dispute. -/
inductive Initiator where
  | buyer
  | seller
  deriving DecidableEq, Repr

/-- `Initiator::parse`. -/
def Initiator.parse (value : String) : Except (ParseError F) Initiator :=
  match value with
  | "buyer" => .ok .buyer
  | "seller" => .ok .seller
  | _ => .error (.unknownValue "initiator" value "`buyer` or `seller`")

/-- `Initiator::as_str`. -/
def Initiator.asStr : Initiator → String
  | .buyer => "buyer"
  | .seller => "seller"

/-- The dispute statuses mostrod publishes. -/
inductive DisputeStatus where
  | initiated
  | inProgress
  | sellerRefunded
  | settled
  | released
  | cooperativelyCanceled
  deriving DecidableEq, Repr

/-- `dispute::Status::parse`. -/
def DisputeStatus.parse (value : String) : Except (ParseError F) DisputeStatus :=
  match value with
  | "initiated" => .ok .initiated
  | "in-progress" => .ok .inProgress
  | "seller-refunded" => .ok .sellerRefunded
  | "settled" => .ok .settled
  | "released" => .ok .released
  | "cooperatively-canceled" => .ok .cooperativelyCanceled
  | _ => .error (.unknownValue "s" value
      "`initiated`, `in-progress`, `seller-refunded`, `settled`, `released` or `cooperatively-canceled`")

/-- `dispute::Status::as_str`. -/
def DisputeStatus.asStr : DisputeStatus → String
  | .initiated => "initiated"
  | .inProgress => "in-progress"
  | .sellerRefunded => "seller-refunded"
  | .settled => "settled"
  | .released => "released"
  | .cooperativelyCanceled => "cooperatively-canceled"

/-- One published version of a dispute. -/
structure DisputeVersion where
  eventId : String
  disputeId : String
  pubkey : String
  createdAt : Int
  status : DisputeStatus
  initiator : Option Initiator
  openedAt : Option Int
  deriving DecidableEq, Repr

/-- `dispute::parse`. -/
def parseDispute (e : Event) : Except (ParseError F) DisputeVersion := do
  expectKind e disputeKind
  let initiator ← (← optional e "initiator").mapM Initiator.parse
  let openedAt ← publishedAt e
  let disputeId ← required e "d"
  let status ← DisputeStatus.parse (← required e "s")
  return {
    eventId := e.id, disputeId, pubkey := e.pubkey, createdAt := e.at, status,
    initiator, openedAt }

/-! ## Instance info (kind 38385) -/

/-- One published self-description of an instance. -/
structure InstanceInfo (F : Type) where
  eventId : String
  pubkey : String
  createdAt : Int
  fee : Option F
  maxOrderAmount : Option Int
  minOrderAmount : Option Int
  fiatCurrencies : Option String
  mostroVersion : Option String
  protocolVersion : Option String
  lnNetworks : Option String
  bondEnabled : Option Bool
  deriving DecidableEq

/-- `optional_number`. -/
def optionalNumber {T : Type} (fromStr : String → Option T) (e : Event)
    (tag expected : String) : Except (ParseError F) (Option T) := do
  (← optional e tag).mapM fun value => number fromStr tag value expected

/-- `optional_bool`. -/
def optionalBool (e : Event) (tag : String) :
    Except (ParseError F) (Option Bool) := do
  match ← optional e tag with
  | none => return none
  | some "true" => return some true
  | some "false" => return some false
  | some value => .error (.unknownValue tag value "`true` or `false`")

/-- `info::parse`: the `d` tag has to be the publisher's own pubkey. -/
def parseInfo (X : Externals F) (e : Event) :
    Except (ParseError F) (InstanceInfo F) := do
  expectKind e infoKind
  let identifier ← required e "d"
  if identifier ≠ e.pubkey then
    .error (.unknownValue "d" identifier "the publishing instance's own pubkey")
  let fee ← optionalNumber X.parseF64 e "fee" "a fraction, e.g. `0.006`"
  let maxOrderAmount ← optionalNumber parseI64 e "max_order_amount" "an amount in sats"
  let minOrderAmount ← optionalNumber parseI64 e "min_order_amount" "an amount in sats"
  let fiatCurrencies ← optional e "fiat_currencies_accepted"
  let mostroVersion ← optional e "mostro_version"
  let protocolVersion ← optional e "protocol_version"
  let lnNetworks ← optional e "lnd_networks"
  let bondEnabled ← optionalBool e "bond_enabled"
  return {
    eventId := e.id, pubkey := e.pubkey, createdAt := e.at, fee, maxOrderAmount,
    minOrderAmount, fiatCurrencies, mostroVersion, protocolVersion, lnNetworks,
    bondEnabled }

/-! ## Rate snapshots (kind 30078) -/

/-- One rate snapshot. -/
structure RateSnapshot (F : Type) where
  eventId : String
  pubkey : String
  publishedAt : Int
  source : Option String
  rates : Table String F

/-- `MAX_CLOCK_DIVERGENCE_SECS`. -/
def maxClockDivergenceSecs : Int := 600

/-- `rates::IDENTIFIER`. -/
def ratesIdentifier : String := "mostro-rates"

/-- `canonical_code`: exactly three uppercase ASCII letters. -/
def canonicalCode (code : String) : Except (ParseError F) String :=
  if code.toList.length = 3 ∧ code.toList.all Char.isUpper then .ok code
  else .error (.invalidContent
    ("`" ++ code ++ "`: expected a three-letter uppercase currency code"))

/-- `near`: a claimed time the signed clock corroborates. -/
def near (createdAt publishedAt : Int) : Except (ParseError F) Int :=
  if |publishedAt - createdAt| > maxClockDivergenceSecs then
    .error (.outOfRange "published_at" (toString publishedAt)
      "a time within ten minutes of the event's own clock")
  else .ok publishedAt

/-- `signed_at`: the event's clock, refused when it does not fit an `i64`. -/
def signedAt (e : Event) : Except (ParseError F) Int :=
  if e.createdAt.toNat < 2 ^ 63 then .ok e.createdAt.toNat
  else .error (.outOfRange "created_at" (toString e.createdAt.toNat)
    "a unix timestamp that fits a signed 64-bit second count")

/-- One row of the `BTC` table: a positive, finite price under a canonical
    code. -/
def parsePrice (X : Externals F) (rates : Table String F) (entry : String × Price F) :
    Except (ParseError F) (Table String F) := do
  match entry.2.asF64.filter fun price => X.isFinite price && X.lt X.zero price with
  | none => .error (.invalidContent
      ("`" ++ entry.1 ++ "` = " ++ entry.2.text ++ ": expected a positive number"))
  | some price => return rates.insert (← canonicalCode entry.1) price

/-- `parse_content`: the `{"BTC": …}` object, checked entry by entry. -/
def parseContent (X : Externals F) (content : String) :
    Except (ParseError F) (Table String F) := do
  match X.readContent content with
  | .error reason => .error (.invalidContent reason)
  | .ok none => .error (.invalidContent "no `BTC` object")
  | .ok (some table) => do
      let rates ← table.foldlM (parsePrice X) ∅
      if rates.isEmpty then .error (.invalidContent "`BTC` names no currency")
      else return rates

/-- The moment a snapshot was fetched: the claimed one when the event's clock
    corroborates it, else the clock. -/
def ratesPublishedAt (e : Event) (createdAt : Int) : Except (ParseError F) Int := do
  match ← optional e "published_at" with
  | some value => do
      let claimed ← number parseI64 "published_at" value "a unix timestamp"
      near createdAt (← nonNegative "published_at" claimed "a unix timestamp")
  | none => .ok createdAt

/-- `rates::parse`. -/
def parseRates (X : Externals F) (e : Event) :
    Except (ParseError F) (RateSnapshot F) := do
  expectKind e ratesKind
  let identifier ← required e "d"
  if identifier ≠ ratesIdentifier then
    .error (.unknownValue "d" identifier "`mostro-rates`")
  let createdAt ← signedAt e
  let publishedAt ← ratesPublishedAt e createdAt
  let source ← optional e "source"
  let rates ← parseContent X e.content
  return { eventId := e.id, pubkey := e.pubkey, publishedAt, source, rates }

/-! ## Relay lists (kind 10002) -/

/-- One relay list. -/
structure RelayList where
  eventId : String
  pubkey : String
  createdAt : Int
  relays : List String
  deriving DecidableEq, Repr

/-- `writes_to`: no marker, or `write`. -/
def writesTo (marker : Option String) : Bool :=
  match marker with
  | none => true
  | some m => m == "write"

/-- What one `r` tag adds to the relays read so far. -/
def addRelay (X : Externals F) (relays : List String) (values : List String) :
    List String :=
  match values with
  | [] => relays
  | url :: rest =>
      if !writesTo rest.head? then relays
      else match X.parseRelayUrl url with
        | none => relays
        | some url => if relays.contains url then relays else relays ++ [url]

/-- `relay_list::parse`: a bad entry is dropped, never the list. -/
def parseRelayList (X : Externals F) (e : Event) :
    Except (ParseError F) RelayList := do
  expectKind e relayListKind
  return {
    eventId := e.id, pubkey := e.pubkey, createdAt := e.at,
    relays := (repeatedTagValues e "r").foldl (addRelay X) [] }

/-! ## Where a parsed value comes from -/

theorem parseOrder_origin {X : Externals F} {e : Event} {v : OrderVersion F}
    (h : parseOrder X e = .ok v) :
    e.kind = orderKind ∧ v.eventId = e.id ∧ v.pubkey = e.pubkey
      ∧ v.createdAt = e.at := by
  simp only [parseOrder, bind_eq_ok] at h
  obtain ⟨_, hk, _, -, _, -, _, -, _, -, _, -, _, -, _, -, _, -, _, -, _, -,
    _, -, _, -, _, -, _, -, _, -, _, -, _, -, _, -, _, -, _, -, h⟩ := h
  cases h
  exact ⟨expectKind_eq_ok hk, rfl, rfl, rfl⟩

theorem parseDevFee_origin {X : Externals F} {e : Event} {v : DevFee}
    (h : parseDevFee X e = .ok v) :
    e.kind = devFeeKind ∧ v.eventId = e.id ∧ v.pubkey = e.pubkey
      ∧ v.createdAt = e.at := by
  simp only [parseDevFee, bind_eq_ok] at h
  obtain ⟨_, hk, _, -, _, -, _, -, _, -, _, -, _, -, _, -, _, -, _, -, h⟩ := h
  cases h
  exact ⟨expectKind_eq_ok hk, rfl, rfl, rfl⟩

theorem parseDispute_origin {e : Event} {v : DisputeVersion}
    (h : parseDispute (F := F) e = .ok v) :
    e.kind = disputeKind ∧ v.eventId = e.id ∧ v.pubkey = e.pubkey
      ∧ v.createdAt = e.at := by
  simp only [parseDispute, bind_eq_ok] at h
  obtain ⟨_, hk, _, -, _, -, _, -, _, -, _, -, _, -, h⟩ := h
  cases h
  exact ⟨expectKind_eq_ok hk, rfl, rfl, rfl⟩

theorem parseInfo_origin {X : Externals F} {e : Event} {v : InstanceInfo F}
    (h : parseInfo X e = .ok v) :
    e.kind = infoKind ∧ v.eventId = e.id ∧ v.pubkey = e.pubkey
      ∧ v.createdAt = e.at := by
  simp only [parseInfo, bind_eq_ok] at h
  obtain ⟨_, hk, identifier, -, h⟩ := h
  by_cases hd : identifier ≠ e.pubkey
  · rw [if_pos hd] at h
    exact nomatch h
  · rw [if_neg hd] at h
    simp only [bind_eq_ok] at h
    obtain ⟨_, -, _, -, _, -, _, -, _, -, _, -, _, -, _, -, h⟩ := h
    cases h
    exact ⟨expectKind_eq_ok hk, rfl, rfl, rfl⟩

theorem parseRates_origin {X : Externals F} {e : Event} {v : RateSnapshot F}
    (h : parseRates X e = .ok v) :
    e.kind = ratesKind ∧ v.eventId = e.id ∧ v.pubkey = e.pubkey := by
  simp only [parseRates, bind_eq_ok] at h
  obtain ⟨_, hk, identifier, -, h⟩ := h
  by_cases hd : identifier ≠ ratesIdentifier
  · rw [if_pos hd] at h
    exact nomatch h
  · rw [if_neg hd] at h
    simp only [bind_eq_ok] at h
    obtain ⟨_, -, _, -, _, -, _, -, h⟩ := h
    cases h
    exact ⟨expectKind_eq_ok hk, rfl, rfl⟩

theorem parseRelayList_origin {X : Externals F} {e : Event} {v : RelayList}
    (h : parseRelayList X e = .ok v) :
    e.kind = relayListKind ∧ v.eventId = e.id ∧ v.pubkey = e.pubkey := by
  simp only [parseRelayList, bind_eq_ok] at h
  obtain ⟨_, hk, h⟩ := h
  cases h
  exact ⟨expectKind_eq_ok hk, rfl, rfl⟩

end Parse
