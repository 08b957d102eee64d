import Bestiario.Stored
import Bestiario.Timing
import Bestiario.Views

/-! # Loaders

    `db/load/{mod,activity,instances}.rs`: rows into the values the figures are
    computed over.  A loader reads across tables (the projection, the versions
    behind it, the instance that published it), narrows by scope, and leaves the
    window to the aggregation, or to a filter of its own.

    What a loaded order says is said here once: `read_order` takes a settled
    database apart into the versions its dates come from. -/

namespace Load

open Keyed Wire Repo Derived
open Stats (Order Profile)

variable {F : Type} {X : Externals F} {db : Db F}

/-- What every loader narrows its read to. -/
structure Scope where
  pubkey : Option String
  networks : List Network

/-- `Scope::apply_instance`. -/
def Scope.appliesInstance (scope : Scope) (pubkey : String) : Bool :=
  scope.pubkey.all fun wanted => pubkey == wanted

/-- `Scope::apply`: a `NULL` network is in no list. -/
def Scope.applies (scope : Scope) (pubkey : String) (network : Option String) : Bool :=
  scope.appliesInstance pubkey
    && (scope.networks.isEmpty
      || network.any fun network => (scope.networks.map Network.asStr).contains network)

/-- `SHORT_PUBKEY_LEN`. -/
def shortPubkeyLen : Nat := 8

/-- `instance_label`. -/
def instanceLabel (pubkey : String) (name : Option String) : String :=
  match name with
  | some name =>
      name ++ " (" ++ String.ofList (pubkey.toList.take shortPubkeyLen) ++ ")"
  | none => pubkey

/-- The name an instance goes by: the `LEFT JOIN` of every loader. -/
def instanceName (pubkey : String) (db : Db F) : Option String :=
  (db.instances[pubkey]?).bind Instance.name

/-! ## `load::activity` -/

/-- The versions of an order. -/
def mine (orderId : String) (row : OrderVersionRow F) : Bool := row.orderId == orderId

/-- The date an order is sorted and counted by: its tag, never later than its
    first version. -/
def createdAt (row : OrderRow F) : Int :=
  min row.firstSeenAt (row.orderCreatedAt.getD row.firstSeenAt)

/-- The expiry of the latest version. -/
def expiresAt (orderId : String) (db : Db F) : Option Int :=
  (first Orders.newest db.orderVersions (mine orderId)).map OrderVersionRow.expiresAt

/-- Which orders a read returns. -/
inductive Filter where
  | all
  | completedIn (from' until' : Int)
  | touchedIn (from' until' now : Int)

/-- The `WHERE` of a filter. -/
def Filter.keeps (filter : Filter) (db : Db F) (row : OrderRow F) : Bool :=
  match filter with
  | .all => true
  | .completedIn from' until' =>
      row.finalStatus == "success"
        && row.successAt.any fun success => decide (success ≥ from') && decide (success < until')
  | .touchedIn from' until' now =>
      !(rows db.orderVersions fun version => mine row.orderId version
          && decide (version.createdAt ≥ from') && decide (version.createdAt < until')).isEmpty
        || (row.finalStatus == "pending"
          && (expiresAt row.orderId db).any fun expires => decide (expires > now))

/-- `Row`: one line of the query. -/
structure Row (F : Type) where
  orderId : String
  pubkey : String
  instanceName : Option String
  createdAt : Int
  status : String
  kind : String
  fiatCode : String
  paymentMethods : String
  firstPaymentMethods : Option String
  amountSats : Int
  fiatAmount : Option F
  premium : F
  firstAmountSats : Option Int
  firstFiatMin : Option F
  firstFiatMax : Option F
  firstFiatCode : Option String
  firstKind : Option String
  pendingAt : Option Int
  successAt : Option Int
  canceledAt : Option Int
  takenAt : Option Int
  expiresAt : Option Int

/-- The columns selected for an order, its first version joined in. -/
def select (db : Db F) (row : OrderRow F) : Row F :=
  let first' := first (ascAsc OrderVersionRow.createdAt OrderVersionRow.eventId)
    db.orderVersions (mine row.orderId)
  { orderId := row.orderId
    pubkey := row.pubkey
    instanceName := instanceName row.pubkey db
    createdAt := createdAt row
    status := row.finalStatus
    kind := row.kind
    fiatCode := row.fiatCode
    paymentMethods := row.paymentMethods
    firstPaymentMethods := first'.map OrderVersionRow.paymentMethods
    amountSats := row.amountSats
    fiatAmount := row.fiatAmount
    premium := row.premium
    firstAmountSats := first'.map OrderVersionRow.amountSats
    firstFiatMin := first'.bind OrderVersionRow.fiatMin
    firstFiatMax := first'.bind OrderVersionRow.fiatMax
    firstFiatCode := first'.map OrderVersionRow.fiatCode
    firstKind := first'.map OrderVersionRow.kind
    pendingAt := minimum (Orders.whenStatus "pending") db.orderVersions (mine row.orderId)
    successAt := row.successAt
    canceledAt := row.canceledAt
    takenAt := minimum (Orders.whenStatus "in-progress") db.orderVersions (mine row.orderId)
    expiresAt := expiresAt row.orderId db }

/-- The parser's status as the aggregation's. -/
def status : Parse.Status → Stats.Status
  | .pending => .pending
  | .inProgress => .inProgress
  | .success => .success
  | .canceled => .canceled

def direction : Parse.Direction → Stats.Direction
  | .buy => .buy
  | .sell => .sell

/-- `Row::into_order`. -/
def Row.intoOrder (row : Row F) : Except (ReadError F) (Order F) := do
  let originKind ← decode "kind" (Parse.Direction.parse (row.firstKind.getD row.kind))
  let status' ← decode "final_status" (Parse.Status.parse row.status)
  let kind ← decode "kind" (Parse.Direction.parse row.kind)
  return {
    orderId := row.orderId
    pubkey := row.pubkey
    instance' := instanceLabel row.pubkey row.instanceName
    createdAt := row.createdAt
    status := Load.status status'
    direction := direction kind
    fiatCode := row.fiatCode
    paymentMethods := csvSplit row.paymentMethods
    amountSats := row.amountSats
    fiatAmount := row.fiatAmount
    premium := row.premium
    isMarketPrice := row.firstAmountSats == some 0
    fiatRange := row.firstFiatMin.bind fun min => row.firstFiatMax.map fun max => (min, max)
    pendingAt := row.pendingAt
    origin := {
      fiatCode := row.firstFiatCode.getD row.fiatCode
      paymentMethods := csvSplit (row.firstPaymentMethods.getD row.paymentMethods)
      direction := direction originKind }
    takenAt := row.takenAt
    successAt := row.successAt
    canceledAt := row.canceledAt
    expiresAt := row.expiresAt }

/-- One row of `orders`, loaded. -/
def orderOf (db : Db F) (row : OrderRow F) : Except (ReadError F) (Order F) :=
  (select db row).intoOrder

/-- `fetch`: the orders in scope a filter keeps, oldest first. -/
def fetch (scope : Scope) (filter : Filter) (db : Db F) : Except (ReadError F) (List (Order F)) :=
  (rowsBy (ascAsc createdAt OrderRow.orderId) db.orders fun row =>
    scope.applies row.pubkey row.network && filter.keeps db row).mapM (orderOf db)

/-- `load::activity::orders`. -/
def orders (scope : Scope) (db : Db F) : Except (ReadError F) (List (Order F)) :=
  fetch scope .all db

/-- `load::activity::lifecycle_in`. -/
def lifecycleIn (scope : Scope) (from' until' now : Int) (db : Db F) :
    Except (ReadError F) (List (Order F)) :=
  fetch scope (.touchedIn from' until' now) db

/-! ## `load::instances` -/

/-- `latest_published`: a field of the latest version that carried it. -/
def latestPublished {α : Type} (column : Parse.InstanceInfo F → Option α) (pubkey : String)
    (db : Db F) : Option α :=
  (first (descAsc Parse.InstanceInfo.createdAt Parse.InstanceInfo.eventId) db.instanceInfo
    fun info => info.pubkey == pubkey && (column info).isSome).bind column

/-- `Row::into_profile`, its row read. -/
def profileOf (db : Db F) (row : Instance) : Profile F :=
  let split := fun csv : Option String => (csv.map csvSplit).getD []
  { label := instanceLabel row.pubkey row.name
    pubkey := row.pubkey
    name := row.name
    mostroVersion := latestPublished Parse.InstanceInfo.mostroVersion row.pubkey db
    protocolVersion := latestPublished Parse.InstanceInfo.protocolVersion row.pubkey db
    fee := latestPublished Parse.InstanceInfo.fee row.pubkey db
    minOrderSats := latestPublished Parse.InstanceInfo.minOrderAmount row.pubkey db
    maxOrderSats := latestPublished Parse.InstanceInfo.maxOrderAmount row.pubkey db
    fiatCurrencies := split (latestPublished Parse.InstanceInfo.fiatCurrencies row.pubkey db)
    lnNetworks := split (latestPublished Parse.InstanceInfo.lnNetworks row.pubkey db)
    bondEnabled := latestPublished Parse.InstanceInfo.bondEnabled row.pubkey db
    firstSeenAt := row.firstSeenAt
    lastSeenAt := row.lastSeenAt }

/-- `load::instances::profiles`: every instance in scope, oldest first. -/
def profiles (scope : Scope) (db : Db F) : List (Profile F) :=
  (rowsBy (ascAsc Instance.firstSeenAt Instance.pubkey) db.instances fun row =>
    scope.appliesInstance row.pubkey).map (profileOf db)

/-! ## What a loaded order says -/

/-- A version read: its status and its side are ones the wire can carry. -/
theorem orderVersion_read (h : Settled X db) {k : String} {version : OrderVersionRow F}
    (hk : db.orderVersions[k]? = some version) :
    ∃ v : Parse.OrderVersion F, version = Orders.rowOf v := by
  obtain ⟨r, -, hread⟩ := h.tables.orderVersions.sound k version hk
  obtain ⟨v, -, rfl⟩ := readOrder_eq_some.mp hread
  exact ⟨v, rfl⟩

/-- The row of an order is the projection of its versions. -/
theorem orders_projected (h : Settled X db) {k : String} {row : OrderRow F}
    (hk : db.orders[k]? = some row) :
    row.orderId = k ∧ Orders.projected db.orderVersions k = some row := by
  have hrow : Orders.projected db.orderVersions k = some row := by
    rw [← hk, h.orders.getElem?_eq k]
    rfl
  exact ⟨Derived.orders.project_key hrow, hrow⟩

/-- What the loader reads of an order, out of the versions behind it. -/
structure Reads (db : Db F) (row : OrderRow F) (order : Order F) : Prop where
  loaded : orderOf db row = .ok order
  orderId : order.orderId = row.orderId
  pubkey : order.pubkey = row.pubkey
  label : order.instance' = instanceLabel row.pubkey (instanceName row.pubkey db)
  created : order.createdAt = createdAt row
  expires : order.expiresAt = expiresAt row.orderId db
  pending : order.pendingAt
    = minimum (Orders.whenStatus "pending") db.orderVersions (mine row.orderId)
  taken : order.takenAt
    = minimum (Orders.whenStatus "in-progress") db.orderVersions (mine row.orderId)
  success : order.successAt
    = minimum (Orders.whenStatus "success") db.orderVersions (mine row.orderId)
  canceled : order.canceledAt
    = minimum (Orders.whenStatus "canceled") db.orderVersions (mine row.orderId)
  latest : ∃ (k : String) (v : Parse.OrderVersion F),
    db.orderVersions[k]? = some (Orders.rowOf v) ∧ v.orderId = row.orderId
      ∧ row.finalStatus = v.status.asStr

/-- **EVERY ROW OF A SETTLED DATABASE LOADS.** -/
theorem exists_reads (h : Settled X db) {k : String} {row : OrderRow F}
    (hk : db.orders[k]? = some row) : ∃ order, Reads db row order := by
  obtain ⟨rfl, hrow⟩ := orders_projected h hk
  simp only [Orders.projected, Option.bind_eq_bind, Option.bind_eq_some_iff] at hrow
  obtain ⟨latest, hlatest, firstSeenAt, -, lastUpdatedAt, -, hrow⟩ := hrow
  obtain ⟨⟨k, hk⟩, hmine⟩ := first_mem hlatest
  obtain ⟨v, rfl⟩ := orderVersion_read h hk
  -- The first version is a version too.
  obtain ⟨w, hfirst⟩ : ∃ w : Parse.OrderVersion F,
      first (ascAsc OrderVersionRow.createdAt OrderVersionRow.eventId) db.orderVersions
        (mine row.orderId) = some (Orders.rowOf w) := by
    cases hfirst : first (ascAsc OrderVersionRow.createdAt OrderVersionRow.eventId)
        db.orderVersions (mine row.orderId) with
    | none => exact absurd ((first_eq_none_iff _).mp hfirst k _ hk) (by rw [mine, hmine]; decide)
    | some version =>
        obtain ⟨⟨k', hk'⟩, -⟩ := first_mem hfirst
        obtain ⟨w, rfl⟩ := orderVersion_read h hk'
        exact ⟨w, rfl⟩
  have hrow := Option.some.inj hrow
  have hstatus : row.finalStatus = v.status.asStr := by rw [← hrow]; rfl
  have hkind : row.kind = v.direction.asStr := by rw [← hrow]; rfl
  obtain ⟨order, hload⟩ : ∃ order, orderOf db row = .ok order := by
    have hfirstKind : (select db row).firstKind = some w.direction.asStr := by
      simp only [select, hfirst]
      rfl
    have hselected : (select db row).status = row.finalStatus ∧ (select db row).kind = row.kind :=
      ⟨rfl, rfl⟩
    rw [orderOf, Row.intoOrder, hfirstKind, hselected.1, hselected.2, hstatus, hkind,
      Option.getD_some, direction_parse_asStr, direction_parse_asStr, status_parse_asStr]
    exact ⟨_, rfl⟩
  have hparts := hload
  simp only [orderOf, Row.intoOrder, bind_eq_ok] at hparts
  obtain ⟨_, -, _, -, _, -, horder⟩ := hparts
  cases horder
  exact ⟨_, {
    loaded := hload
    orderId := rfl
    pubkey := rfl
    label := rfl
    created := rfl
    expires := rfl
    pending := rfl
    taken := rfl
    success := (congrArg OrderRow.successAt hrow).symm
    canceled := (congrArg OrderRow.canceledAt hrow).symm
    latest := ⟨k, v, hk, eq_of_beq hmine, hstatus⟩ }⟩

theorem reads_of_orderOf (h : Settled X db) {k : String} {row : OrderRow F}
    (hk : db.orders[k]? = some row) {order : Order F} (hload : orderOf db row = .ok order) :
    Reads db row order := by
  obtain ⟨order', hread⟩ := exists_reads h hk
  cases hload.symm.trans hread.loaded
  exact hread

/-- **THE LOAD OF A SETTLED DATABASE**: one order for each row in scope. -/
theorem orders_spec (h : Settled X db) (scope : Scope) :
    ∃ all, orders scope db = .ok all
      ∧ (∀ order ∈ all, ∃ (k : String) (row : OrderRow F), db.orders[k]? = some row
        ∧ scope.applies row.pubkey row.network = true ∧ Reads db row order)
      ∧ ∀ (k : String) row, db.orders[k]? = some row →
        scope.applies row.pubkey row.network = true → ∃ order ∈ all, Reads db row order := by
  have hlisted : ∀ row, row ∈ rowsBy (ascAsc createdAt OrderRow.orderId) db.orders (fun row =>
      scope.applies row.pubkey row.network && Filter.all.keeps db row)
        ↔ (∃ k : String, db.orders[k]? = some row)
          ∧ scope.applies row.pubkey row.network = true := by
    intro row
    rw [mem_rowsBy, Filter.keeps, Bool.and_true]
  obtain ⟨all, hall⟩ := exists_mapM (f := orderOf db) fun row hrow => by
    obtain ⟨⟨k, hk⟩, -⟩ := (hlisted row).mp hrow
    obtain ⟨order, hread⟩ := exists_reads h hk
    exact ⟨order, hread.loaded⟩
  refine ⟨all, hall, fun order horder => ?_, fun k row hk hscope => ?_⟩
  · obtain ⟨row, hrow, hload⟩ := mem_of_mapM hall horder
    obtain ⟨⟨k, hk⟩, hscope⟩ := (hlisted row).mp hrow
    exact ⟨k, row, hk, hscope, reads_of_orderOf h hk hload⟩
  · obtain ⟨order, horder, hload⟩ := exists_of_mapM hall ((hlisted row).mpr ⟨⟨k, hk⟩, hscope⟩)
    exact ⟨order, horder, reads_of_orderOf h hk hload⟩

end Load
