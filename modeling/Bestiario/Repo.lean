import Bestiario.Parse

/-! # The database, one statement at a time

    The tables of `migrations/` as one record, and the statements of
    `db/repo/*.rs` over it.  A row is what SQLite holds: an enumeration is the
    text `as_str` writes, a list of payment methods is one csv column, a NaN is
    a `NULL`.  The two exceptions are `events.raw_json`, carried as the event
    `Event::from_json` reads back from it, and `rates.rates_json`, carried as
    the map it decodes to.

    Every function below is ONE statement (or the statements one repository
    call issues), so that a transaction is a composition of them and a rebuild
    interleaved with a sync is a list of them. -/

namespace Repo

open Keyed Wire Parse

variable {F : Type}

/-! ## Rows -/

/-- One row of `events`. -/
structure EventRecord where
  id : String
  pubkey : String
  kind : UInt16
  createdAt : Int
  dTag : Option String
  rawJson : Event
  relayUrl : String
  seenAt : Int
  deriving DecidableEq

/-- `EventRecord::new`: the row for `e`, as delivered by a relay. -/
def EventRecord.new (e : Event) (relayUrl : String) (seenAt : Int) : EventRecord where
  id := e.id
  pubkey := e.pubkey
  kind := e.kind
  createdAt := e.at
  dTag := Wire.dTag e
  rawJson := e
  relayUrl := relayUrl
  seenAt := seenAt

/-- One row of `instances`. -/
structure Instance where
  pubkey : String
  name : Option String
  nameSeenAt : Option Int
  firstSeenAt : Int
  lastSeenAt : Int
  deriving DecidableEq

/-- One row of `order_versions`. -/
structure OrderVersionRow (F : Type) where
  eventId : String
  orderId : String
  pubkey : String
  createdAt : Int
  kind : String
  status : String
  fiatCode : String
  amountSats : Int
  fiatAmount : Option F
  fiatMin : Option F
  fiatMax : Option F
  paymentMethods : String
  premium : F
  network : Option String
  expiresAt : Int
  orderCreatedAt : Option Int
  deriving DecidableEq

/-- One row of `orders`. -/
structure OrderRow (F : Type) where
  orderId : String
  pubkey : String
  firstSeenAt : Int
  lastUpdatedAt : Int
  finalStatus : String
  kind : String
  fiatCode : String
  amountSats : Int
  fiatAmount : Option F
  paymentMethods : String
  premium : F
  network : Option String
  successAt : Option Int
  canceledAt : Option Int
  orderCreatedAt : Option Int
  deriving DecidableEq

/-- One row of `dispute_versions`. -/
structure DisputeVersionRow where
  eventId : String
  disputeId : String
  pubkey : String
  createdAt : Int
  status : String
  initiator : Option String
  openedAt : Option Int
  deriving DecidableEq

/-- One row of `disputes`. -/
structure DisputeRow where
  disputeId : String
  pubkey : String
  openedAt : Option Int
  lastUpdatedAt : Int
  finalStatus : String
  initiator : Option String
  deriving DecidableEq

/-- One row of `dev_fees`. -/
structure FeeRow where
  eventId : String
  pubkey : String
  orderId : String
  amountSats : Int
  paymentHash : String
  destination : Option String
  network : Option String
  createdAt : Int
  isDuplicate : Bool
  deriving DecidableEq

/-- Where a relay URL came from. -/
inductive Source where
  | config
  | nip65 (pubkey : String)
  deriving DecidableEq

/-- One row of `relays`. -/
structure Relay where
  url : String
  source : Source
  firstSeenAt : Int
  deriving DecidableEq

/-- One row of `sync_state`. -/
structure Cursor where
  lastCreatedAt : Int
  updatedAt : Int
  deriving DecidableEq

/-- One row of `indexed_kinds`. -/
structure IndexedKind where
  indexedFrom : Int
  updatedAt : Int
  deriving DecidableEq

/-- The archive and everything derived from it. -/
@[ext]
structure Db (F : Type) where
  events : Table String EventRecord
  instances : Table String Instance
  instanceNames : Table (String ×ₗ String) Int
  instanceInfo : Table String (InstanceInfo F)
  orderVersions : Table String (OrderVersionRow F)
  orders : Table String (OrderRow F)
  devFees : Table String FeeRow
  disputeVersions : Table String DisputeVersionRow
  disputes : Table String DisputeRow
  rates : Table String (RateSnapshot F)
  relays : Table String Relay
  syncState : Table (String ×ₗ UInt16) Cursor
  indexedKinds : Table UInt16 IndexedKind

/-- A database migrated and never written to. -/
def Db.empty : Db F :=
  ⟨∅, ∅, ∅, ∅, ∅, ∅, ∅, ∅, ∅, ∅, ∅, ∅, ∅⟩

/-! ## `repo::csv` -/

/-- `csv::needs_quoting`. -/
def needsQuoting (value : String) : Bool :=
  value.toList.contains ',' || value.toList.contains '"' || trim value != value

/-- `value.replace('"', "\"\"")`. -/
def doubleQuotes (cs : List Char) : List Char :=
  cs.flatMap fun c => if c = '"' then ['"', '"'] else [c]

/-- `csv::join`. -/
def csvJoin (values : List String) : String :=
  ",".intercalate (values.map fun value =>
    if needsQuoting value then
      String.ofList ('"' :: doubleQuotes value.toList ++ ['"'])
    else value)

/-! ## `repo::events` -/

namespace Events

/-- `events::insert_if_new`, and whether the row was new. -/
def insertIfNew (record : EventRecord) (db : Db F) : Bool × Db F :=
  (db.events[record.id]?.isNone,
    { db with events := db.events.insertIfNew record.id record })

/-- `events::all`: every archived event, oldest first. -/
def all (db : Db F) : List EventRecord :=
  rowsBy (ascAsc EventRecord.createdAt EventRecord.id) db.events fun _ => true

end Events

/-! ## `repo::instances` -/

namespace Instances

/-- What `instances::upsert` leaves of a row already there. -/
def merged (old : Instance) (name : Option String) (publishedAt : Int) : Instance :=
  let firstSeenAt := min old.firstSeenAt publishedAt
  let lastSeenAt := max old.lastSeenAt publishedAt
  match name, old.nameSeenAt with
  | none, _ => { old with firstSeenAt, lastSeenAt }
  | some name, none =>
      { old with firstSeenAt, lastSeenAt, name := some name, nameSeenAt := some publishedAt }
  | some name, some seen =>
      if publishedAt ≥ seen then
        { old with
          firstSeenAt, lastSeenAt, name := some name, nameSeenAt := some publishedAt }
      else { old with firstSeenAt, lastSeenAt }

/-- `instances::upsert`. -/
def upsert (pubkey : String) (name : Option String) (publishedAt : Int) (db : Db F) :
    Db F :=
  let row := match db.instances[pubkey]? with
    | some old => merged old name publishedAt
    | none => {
        pubkey, name, nameSeenAt := name.map fun _ => publishedAt
        firstSeenAt := publishedAt, lastSeenAt := publishedAt }
  { db with instances := db.instances.insert pubkey row }

/-- `instances::record_name`. -/
def recordName (pubkey name : String) (publishedAt : Int) (db : Db F) : Db F :=
  let key := toLex (pubkey, name)
  let seenAt := match db.instanceNames[key]? with
    | some seen => max seen publishedAt
    | none => publishedAt
  { db with instanceNames := db.instanceNames.insert key seenAt }

/-- `instances::is_platform_proven`: a row in any of the four tables whose
    events carry the `y` tag. -/
def isPlatformProven (pubkey : String) (db : Db F) : Bool :=
  !(rows db.orderVersions fun row => row.pubkey == pubkey).isEmpty
    || !(rows db.devFees fun row => row.pubkey == pubkey).isEmpty
    || !(rows db.disputeVersions fun row => row.pubkey == pubkey).isEmpty
    || !(rows db.instanceInfo fun row => row.pubkey == pubkey).isEmpty

/-- `instances::clear`. -/
def clear (db : Db F) : Db F := { db with instanceNames := ∅, instances := ∅ }

end Instances

/-! ## `repo::orders` -/

namespace Orders

/-- The columns `insert_version` binds for a version. -/
def rowOf (v : OrderVersion F) : OrderVersionRow F where
  eventId := v.eventId
  orderId := v.orderId
  pubkey := v.pubkey
  createdAt := v.createdAt
  kind := v.direction.asStr
  status := v.status.asStr
  fiatCode := v.fiatCode
  amountSats := v.amountSats
  fiatAmount := match v.fiat with
    | .fixed amount => some amount
    | .range _ _ => none
  fiatMin := match v.fiat with
    | .fixed _ => none
    | .range min _ => some min
  fiatMax := match v.fiat with
    | .fixed _ => none
    | .range _ max => some max
  paymentMethods := csvJoin v.paymentMethods
  premium := v.premium
  network := v.network.map Network.asStr
  expiresAt := v.expiresAt
  orderCreatedAt := v.orderCreatedAt

/-- `orders::insert_version`. -/
def insertVersion (v : OrderVersion F) (db : Db F) : Db F :=
  { db with orderVersions := db.orderVersions.insertIfNew v.eventId (rowOf v) }

/-- `ORDER BY created_at DESC, event_id ASC`. -/
def newest : OrderVersionRow F → ℤᵒᵈ ×ₗ String :=
  descAsc OrderVersionRow.createdAt OrderVersionRow.eventId

/-- `created_at` of the versions in `status`, `NULL` for the others. -/
def whenStatus (status : String) (row : OrderVersionRow F) : Option Int :=
  if row.status = status then some row.createdAt else none

/-- The `SELECT` of `refresh_projection`: the row `orderId` projects to, none
    when no version of it is stored. -/
def projected (versions : Table String (OrderVersionRow F)) (orderId : String) :
    Option (OrderRow F) := do
  let mine := fun row : OrderVersionRow F => row.orderId == orderId
  let latest ← first newest versions mine
  let firstSeenAt ← minimum (fun row => some row.createdAt) versions mine
  let lastUpdatedAt ← maximum (fun row => some row.createdAt) versions mine
  return {
    orderId := latest.orderId
    pubkey := latest.pubkey
    firstSeenAt
    lastUpdatedAt
    finalStatus := latest.status
    kind := latest.kind
    fiatCode := latest.fiatCode
    amountSats := latest.amountSats
    fiatAmount := latest.fiatAmount
    paymentMethods := latest.paymentMethods
    premium := latest.premium
    network := latest.network
    successAt := minimum (whenStatus "success") versions mine
    canceledAt := minimum (whenStatus "canceled") versions mine
    orderCreatedAt := minimum OrderVersionRow.orderCreatedAt versions mine }

/-- `orders::refresh_projection`. -/
def refreshProjection (orderId : String) (db : Db F) : Db F :=
  match projected db.orderVersions orderId with
  | some row => { db with orders := db.orders.insert row.orderId row }
  | none => db

/-- `orders::ids`. -/
def ids (db : Db F) : List String := distinct OrderVersionRow.orderId db.orderVersions

/-- `orders::clear_projection`. -/
def clearProjection (db : Db F) : Db F := { db with orders := ∅ }

/-- `orders::clear_versions`. -/
def clearVersions (db : Db F) : Db F := { db with orderVersions := ∅ }

end Orders

/-! ## `repo::disputes` -/

namespace Disputes

/-- The columns `insert_version` binds for a version. -/
def rowOf (v : DisputeVersion) : DisputeVersionRow where
  eventId := v.eventId
  disputeId := v.disputeId
  pubkey := v.pubkey
  createdAt := v.createdAt
  status := v.status.asStr
  initiator := v.initiator.map Initiator.asStr
  openedAt := v.openedAt

/-- `disputes::insert_version`. -/
def insertVersion (v : DisputeVersion) (db : Db F) : Db F :=
  { db with disputeVersions := db.disputeVersions.insertIfNew v.eventId (rowOf v) }

/-- `ORDER BY created_at DESC, event_id ASC`. -/
def newest : DisputeVersionRow → ℤᵒᵈ ×ₗ String :=
  descAsc DisputeVersionRow.createdAt DisputeVersionRow.eventId

/-- The `SELECT` of `refresh_projection`. -/
def projected (versions : Table String DisputeVersionRow) (disputeId : String) :
    Option DisputeRow := do
  let mine := fun row : DisputeVersionRow => row.disputeId == disputeId
  let latest ← first newest versions mine
  let lastUpdatedAt ← maximum (fun row => some row.createdAt) versions mine
  return {
    disputeId := latest.disputeId
    pubkey := latest.pubkey
    openedAt := (first newest versions fun row =>
      mine row && row.openedAt.isSome).bind DisputeVersionRow.openedAt
    lastUpdatedAt
    finalStatus := latest.status
    initiator := (first newest versions fun row =>
      mine row && row.initiator.isSome).bind DisputeVersionRow.initiator }

/-- `disputes::refresh_projection`. -/
def refreshProjection (disputeId : String) (db : Db F) : Db F :=
  match projected db.disputeVersions disputeId with
  | some row => { db with disputes := db.disputes.insert row.disputeId row }
  | none => db

/-- `disputes::ids`. -/
def ids (db : Db F) : List String :=
  distinct DisputeVersionRow.disputeId db.disputeVersions

/-- `disputes::clear_projection`. -/
def clearProjection (db : Db F) : Db F := { db with disputes := ∅ }

/-- `disputes::clear_versions`. -/
def clearVersions (db : Db F) : Db F := { db with disputeVersions := ∅ }

end Disputes

/-! ## `repo::dev_fees` -/

namespace DevFees

/-- The columns `insert` binds for a fee: never a duplicate on arrival. -/
def rowOf (fee : DevFee) : FeeRow where
  eventId := fee.eventId
  pubkey := fee.pubkey
  orderId := fee.orderId
  amountSats := fee.amountSats
  paymentHash := fee.paymentHash
  destination := fee.destination
  network := fee.network.map Network.asStr
  createdAt := fee.createdAt
  isDuplicate := false

/-- The fee that counts for `orderId`: the earliest, ties by event id. -/
def canonical (fees : Table String FeeRow) (orderId : String) : Option String :=
  (first (ascAsc FeeRow.createdAt FeeRow.eventId) fees
    fun row => row.orderId == orderId).map FeeRow.eventId

/-- `dev_fees::refresh_duplicates`. -/
def refreshDuplicates (orderId : String) (db : Db F) : Db F :=
  { db with
    devFees := db.devFees.map fun _ row =>
      if row.orderId = orderId then
        { row with isDuplicate := some row.eventId != canonical db.devFees orderId }
      else row }

/-- `dev_fees::insert`. -/
def insert (fee : DevFee) (db : Db F) : Db F :=
  refreshDuplicates fee.orderId
    { db with devFees := db.devFees.insertIfNew fee.eventId (rowOf fee) }

/-- `dev_fees::order_ids`. -/
def orderIds (db : Db F) : List String := distinct FeeRow.orderId db.devFees

/-- `dev_fees::clear`. -/
def clear (db : Db F) : Db F := { db with devFees := ∅ }

end DevFees

/-! ## `repo::instance_info` -/

namespace InstanceInfos

/-- The columns `insert_version` binds: SQLite stores a NaN as `NULL`. -/
def rowOf (X : Externals F) (info : InstanceInfo F) : InstanceInfo F :=
  { info with fee := info.fee.filter fun fee => !X.isNan fee }

/-- `instance_info::insert_version`. -/
def insertVersion (X : Externals F) (info : InstanceInfo F) (db : Db F) : Db F :=
  { db with instanceInfo := db.instanceInfo.insertIfNew info.eventId (rowOf X info) }

/-- `instance_info::fee_in_force`: the fee of the most recent version at or
    before `atTs` that names one. -/
def feeInForce (versions : Table String (InstanceInfo F)) (pubkey : String)
    (atTs : Int) : Option F :=
  (first (descAsc InstanceInfo.createdAt InstanceInfo.eventId) versions fun row =>
    row.pubkey == pubkey && decide (row.createdAt ≤ atTs) && row.fee.isSome).bind
      InstanceInfo.fee

/-- `instance_info::clear`. -/
def clear (db : Db F) : Db F := { db with instanceInfo := ∅ }

end InstanceInfos

/-! ## `repo::rates` and `repo::relays` -/

namespace Rates

/-- `rates::insert`. -/
def insert (snapshot : RateSnapshot F) (db : Db F) : Db F :=
  { db with rates := db.rates.insertIfNew snapshot.eventId snapshot }

/-- `rates::published_between`: the snapshots inside `[from, until)`. -/
def publishedBetween (from' until' : Int) (db : Db F) : List (RateSnapshot F) :=
  rowsBy (ascAsc RateSnapshot.publishedAt RateSnapshot.eventId) db.rates fun row =>
    decide (from' ≤ row.publishedAt) && decide (row.publishedAt < until')

/-- `rates::clear`. -/
def clear (db : Db F) : Db F := { db with rates := ∅ }

end Rates

namespace Relays

/-- `relays::upsert`: the first source to name a relay is the one kept. -/
def upsert (url : String) (source : Source) (firstSeenAt : Int) (db : Db F) : Db F :=
  { db with relays := db.relays.insertIfNew url ⟨url, source, firstSeenAt⟩ }

end Relays

/-! ## `repo::heartbeats` -/

namespace Heartbeats

/-- `RATES_BUCKET_SECS`. -/
def ratesBucketSecs : Int := 3600

/-- What the redundancy rule needs from a parsed event. -/
inductive Heartbeat where
  | announcement
  | rates (publishedAt : Int)
  | none
  deriving DecidableEq

/-- `same_tags`: the same tags, in any order. -/
def sameTags (a b : Event) : Bool :=
  a.tags.insertionSort (· ≤ ·) == b.tags.insertionSort (· ≤ ·)

/-- The start of the hour `publishedAt` falls in. -/
def bucketOf (publishedAt : Int) : Int :=
  publishedAt - publishedAt.emod ratesBucketSecs

/-- The version of `e`'s address archived last at or before its clock. -/
def previous (e : Event) (db : Db F) : Option EventRecord :=
  first (descAsc EventRecord.createdAt EventRecord.id) db.events fun record =>
    record.pubkey == e.pubkey && record.kind == e.kind && record.dTag == Wire.dTag e
      && decide (record.createdAt ≤ e.at) && record.id != e.id

/-- `heartbeats::is_redundant`. -/
def isRedundant (e : Event) (heartbeat : Heartbeat) (db : Db F) : Bool :=
  match heartbeat with
  | .none => false
  | .rates publishedAt =>
      let bucket := bucketOf publishedAt
      !(rows db.rates fun row =>
        row.pubkey == e.pubkey && decide (bucket ≤ row.publishedAt)
          && decide (row.publishedAt < wrapI64 (bucket + ratesBucketSecs))
          && row.eventId != e.id).isEmpty
  | .announcement =>
      match previous e db with
      | some record =>
          record.rawJson.content == e.content && sameTags record.rawJson e
      | none => false

end Heartbeats

/-! ## `repo::sync_state` and `repo::indexed_kinds` -/

namespace SyncState

/-- `sync_state::advance`: never backwards, in either clock. -/
def advance (relayUrl : String) (kind : UInt16) (createdAt now : Int) (db : Db F) :
    Db F :=
  let key := toLex (relayUrl, kind)
  let cursor := match db.syncState[key]? with
    | some old => ⟨max old.lastCreatedAt createdAt, max old.updatedAt now⟩
    | none => ⟨createdAt, now⟩
  { db with syncState := db.syncState.insert key cursor }

/-- `sync_state::get`. -/
def get (relayUrl : String) (kind : UInt16) (db : Db F) : Option Cursor :=
  db.syncState[toLex (relayUrl, kind)]?

end SyncState

namespace IndexedKinds

/-- `indexed_kinds::record`: the floor only deepens. -/
def record (kind : UInt16) (indexedFrom now : Int) (db : Db F) : Db F :=
  let from' := max indexedFrom 0
  let row := match db.indexedKinds[kind]? with
    | some old => ⟨min old.indexedFrom from', max old.updatedAt now⟩
    | none => ⟨from', now⟩
  { db with indexedKinds := db.indexedKinds.insert kind row }

/-- `indexed_kinds::indexed_from`. -/
def indexedFrom (kind : UInt16) (db : Db F) : Option Int :=
  (db.indexedKinds[kind]?).map IndexedKind.indexedFrom

end IndexedKinds

end Repo
