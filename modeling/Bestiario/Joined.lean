import Bestiario.Load

/-! # Loading disputes and fees

    `db/load/{disputes,dev_fees}.rs`: the disputes with their opening and their
    resolution, the orders they arise from, the fees with what is known of the order
    each names, and the settled orders with what they owe.

    A projection keeps little of a dispute, and the loader reads the rest off its
    versions.  So a dispute is dated by two clocks that nothing relates: its opening
    by a tag, when some version had one, its resolution by the event of the first
    terminal version. -/

namespace Load

open Keyed Wire Repo Derived
open Stats (Dispute DisputeData Taken Fee Settlement DevFeeData Floats)

variable {F : Type} {X : Externals F} {db : Db F}

/-- `ORDER BY` a column that can be `NULL`, which comes first. -/
def nullsFirst {V : Type} (column : V → Option Int) (row : V) : WithBot Int := column row

/-! ## `load::disputes` -/

/-- The versions of a dispute. -/
def versionOf (disputeId : String) (row : DisputeVersionRow) : Bool := row.disputeId == disputeId

/-- The statuses a dispute is resolved by. -/
def terminalStatuses : List String :=
  ["seller-refunded", "settled", "released", "cooperatively-canceled"]

/-- `v.status IN (…)`. -/
def resolving (disputeId : String) (row : DisputeVersionRow) : Bool :=
  versionOf disputeId row && terminalStatuses.contains row.status

/-- When a dispute was opened: its tag, or else the first version seen. -/
def openedAt (db : Db F) (row : DisputeRow) : Option Int :=
  row.openedAt.or
    (minimum (fun version => some version.createdAt) db.disputeVersions (versionOf row.disputeId))

/-- When it was resolved: the first terminal version. -/
def resolvedAt (db : Db F) (row : DisputeRow) : Option Int :=
  minimum (fun version => some version.createdAt) db.disputeVersions (resolving row.disputeId)

/-- What it was resolved by. -/
def outcome (db : Db F) (row : DisputeRow) : Option String :=
  (first (ascAsc DisputeVersionRow.createdAt DisputeVersionRow.eventId) db.disputeVersions
    (resolving row.disputeId)).map DisputeVersionRow.status

/-- `DisputeRow`: one line of the query. -/
structure DisputeLine where
  disputeId : String
  pubkey : String
  instanceName : Option String
  openedAt : Int
  status : String
  initiator : Option String
  resolvedAt : Option Int
  outcome : Option String

/-- The line of a dispute; `opened_at` has to be there. -/
def disputeLine (db : Db F) (row : DisputeRow) : Except (ReadError F) DisputeLine :=
  match openedAt db row with
  | none => .error (.columnDecode "opened_at" (.inr "unexpected null"))
  | some openedAt => .ok {
      disputeId := row.disputeId
      pubkey := row.pubkey
      instanceName := instanceName row.pubkey db
      openedAt
      status := row.finalStatus
      initiator := row.initiator
      resolvedAt := resolvedAt db row
      outcome := outcome db row }

/-- The parser's status as the aggregation's. -/
def disputeStatus : Parse.DisputeStatus → Stats.DisputeStatus
  | .initiated => .initiated
  | .inProgress => .inProgress
  | .sellerRefunded => .sellerRefunded
  | .settled => .settled
  | .released => .released
  | .cooperativelyCanceled => .cooperativelyCanceled

def initiator : Parse.Initiator → Stats.DisputeInitiator
  | .buyer => .buyer
  | .seller => .seller

/-- `DisputeRow::into_dispute`. -/
def DisputeLine.intoDispute (line : DisputeLine) : Except (ReadError F) Dispute := do
  let initiator' ← line.initiator.mapM fun wire =>
    decode "initiator" (Parse.Initiator.parse wire)
  let outcome ← line.outcome.mapM fun wire => decode "outcome" (Parse.DisputeStatus.parse wire)
  let status ← decode "final_status" (Parse.DisputeStatus.parse line.status)
  return {
    disputeId := line.disputeId
    instance' := instanceLabel line.pubkey line.instanceName
    openedAt := line.openedAt
    status := disputeStatus status
    initiator := initiator'.map Load.initiator
    resolvedAt := line.resolvedAt
    outcome := outcome.map disputeStatus }

/-- `disputes`: every dispute in scope, oldest first; the network does not narrow it. -/
def disputes (scope : Scope) (db : Db F) : Except (ReadError F) (List Dispute) := do
  let lines ← (rowsBy (ascAsc (nullsFirst (openedAt db)) DisputeRow.disputeId)
    db.disputes fun row => scope.appliesInstance row.pubkey).mapM (disputeLine db)
  lines.mapM DisputeLine.intoDispute

/-- When an order left `pending`: the first `in-progress`, or else the settlement. -/
def leftPendingAt (db : Db F) (row : OrderRow F) : Option Int :=
  (minimum (Orders.whenStatus "in-progress") db.orderVersions (mine row.orderId)).or row.successAt

/-- `TakenRow::into_taken`: nothing for an order that never left `pending`. -/
def takenOf (db : Db F) (row : OrderRow F) : Option Taken :=
  (leftPendingAt db row).map fun leftPendingAt =>
    ⟨row.orderId, instanceLabel row.pubkey (instanceName row.pubkey db), leftPendingAt⟩

/-- `taken`: the orders disputes arise from. -/
def taken (scope : Scope) (db : Db F) : List Taken :=
  (rowsBy (ascAsc (nullsFirst (leftPendingAt db)) OrderRow.orderId)
    db.orders fun row => scope.appliesInstance row.pubkey).filterMap (takenOf db)

/-- `load::disputes::load`. -/
def disputeData (scope : Scope) (db : Db F) : Except (ReadError F) DisputeData := do
  let disputes ← disputes scope db
  return ⟨disputes, taken scope db⟩

/-! ## `load::dev_fees` -/

/-- The order a fee names, once it reached `success`. -/
def settledOrder (db : Db F) (orderId : String) : Option (OrderRow F) :=
  (db.orders[orderId]?).filter fun order => order.finalStatus == "success"

/-- `FeeRow::into_fee`, its row read: the fee in force is the one at the settlement, or
    at the payment where there is none. -/
def feeOf (db : Db F) (row : FeeRow) : Fee F :=
  let settledAt := (settledOrder db row.orderId).bind OrderRow.successAt
  { eventId := row.eventId
    orderId := row.orderId
    pubkey := row.pubkey
    instance' := instanceLabel row.pubkey (instanceName row.pubkey db)
    createdAt := row.createdAt
    amountSats := row.amountSats
    isDuplicate := row.isDuplicate
    orderKnown := (db.orders[row.orderId]?).isSome
    settledAt
    feeInForce := InstanceInfos.feeInForce db.instanceInfo row.pubkey
      (settledAt.getD row.createdAt)
    settledAmountSats := (settledOrder db row.orderId).map OrderRow.amountSats }

/-- `fees`: every fee in scope, oldest first. -/
def fees (scope : Scope) (db : Db F) : List (Fee F) :=
  (rowsBy (ascAsc FeeRow.createdAt FeeRow.eventId) db.devFees fun row =>
    scope.applies row.pubkey row.network).map (feeOf db)

/-- `SettlementRow::into_settlement`, its row read. -/
def settlementOf (A : Floats F) (db : Db F) (row : OrderRow F) : Option Settlement :=
  row.successAt.map fun successAt =>
    { orderId := row.orderId
      instance' := instanceLabel row.pubkey (instanceName row.pubkey db)
      successAt
      hasFee := !(rows db.devFees fun fee => fee.orderId == row.orderId).isEmpty
      chargesFee := (InstanceInfos.feeInForce db.instanceInfo row.pubkey successAt).map
        fun fee => A.lt (A.ofInt 0) fee }

/-- `settlements`: every completed order in scope, oldest settlement first. -/
def settlements (A : Floats F) (scope : Scope) (db : Db F) : List Settlement :=
  (rowsBy (ascAsc (nullsFirst OrderRow.successAt) OrderRow.orderId) db.orders
    fun row => row.finalStatus == "success" && row.successAt.isSome
      && scope.applies row.pubkey row.network).filterMap (settlementOf A db)

/-- `load::dev_fees::load`. -/
def devFeeData (A : Floats F) (scope : Scope) (db : Db F) : DevFeeData F :=
  ⟨fees scope db, settlements A scope db⟩

/-! ## What a loaded clock says -/

/-- A value of an `i64` column. -/
def Word (t : Int) : Prop := -2 ^ 63 ≤ t ∧ t < 2 ^ 63

theorem disputeStatus_parse_asStr (status : Parse.DisputeStatus) :
    Parse.DisputeStatus.parse (F := F) status.asStr = .ok status := by
  cases status <;> rfl

theorem initiator_parse_asStr (initiator : Parse.Initiator) :
    Parse.Initiator.parse (F := F) initiator.asStr = .ok initiator := by
  cases initiator <;> rfl

/-- A dispute version read: its status and its side are ones the wire can carry, and
    its clocks are words. -/
theorem disputeVersion_read (h : Settled X db) {k : String} {row : DisputeVersionRow}
    (hk : db.disputeVersions[k]? = some row) :
    ∃ v : Parse.DisputeVersion, row = Disputes.rowOf v ∧ Word row.createdAt
      ∧ ∀ t ∈ row.openedAt, Word t := by
  obtain ⟨r, -, hread⟩ := h.tables.disputeVersions.sound k row hk
  have hclock := (readDispute_origin hread).2.2
  obtain ⟨v, hparse, rfl⟩ := readDispute_eq_some.mp hread
  refine ⟨v, rfl, ?_, fun t ht => ?_⟩
  · rw [hclock]
    exact asI64_fits _
  · have hdispute := parse_dispute hparse
    simp only [Parse.parseDispute, bind_eq_ok] at hdispute
    obtain ⟨_, -, _, -, _, -, openedAt, hopened, _, -, _, -, _, -, hv⟩ := hdispute
    cases hv
    have htag : openedAt = some t := ht
    have hbounds := publishedAt_bounds (htag ▸ hopened)
    exact ⟨by omega, hbounds.2⟩

/-- The row of a dispute is the projection of its versions. -/
theorem disputes_projected (h : Settled X db) {k : String} {row : DisputeRow}
    (hk : db.disputes[k]? = some row) :
    row.disputeId = k ∧ Disputes.projected db.disputeVersions k = some row := by
  have hrow : Disputes.projected db.disputeVersions k = some row := by
    rw [← hk, h.disputes.getElem?_eq k]
    rfl
  exact ⟨Derived.disputes.project_key hrow, hrow⟩

/-- The least clock of some versions is a word. -/
theorem word_of_minimum (h : Settled X db) {p : DisputeVersionRow → Bool} {t : Int}
    (ht : minimum (fun version => some version.createdAt) db.disputeVersions p = some t) :
    Word t := by
  obtain ⟨⟨k, version, hk, -, hclock⟩, -⟩ := minimum_eq_some_iff.mp ht
  cases hclock
  obtain ⟨-, -, hword, -⟩ := disputeVersion_read h hk
  exact hword

/-- What the latest versions with a column say is what some version says. -/
theorem exists_version (h : Settled X db) {α : Type} {column : DisputeVersionRow → Option α}
    {p : DisputeVersionRow → Bool} {value : α}
    (hvalue : (first Disputes.newest db.disputeVersions p).bind column = some value) :
    ∃ (k : String) (v : Parse.DisputeVersion), db.disputeVersions[k]? = some (Disputes.rowOf v)
      ∧ column (Disputes.rowOf v) = some value := by
  obtain ⟨version, hfirst, hcolumn⟩ := Option.bind_eq_some_iff.mp hvalue
  obtain ⟨⟨k, hk⟩, -⟩ := first_mem hfirst
  obtain ⟨v, rfl, -, -⟩ := disputeVersion_read h hk
  exact ⟨k, v, hk, hcolumn⟩

/-- What an optional column decodes to, when each value of it decodes. -/
theorem exists_decoded {ε α β : Type} {f : α → Except ε β} {column : Option α}
    (h : ∀ value ∈ column, ∃ b, f value = .ok b) : ∃ decoded, column.mapM f = .ok decoded := by
  cases column with
  | none => exact ⟨none, rfl⟩
  | some value =>
      obtain ⟨b, hb⟩ := h value rfl
      refine ⟨some b, ?_⟩
      show (do
        let b ← f value
        return some b) = _
      rw [hb]
      rfl

/-- A dispute has an opening: its tag's, or its first version's. -/
theorem exists_openedAt (h : Settled X db) {row : DisputeRow} {k : String}
    (hk : db.disputes[k]? = some row) : ∃ t, openedAt db row = some t ∧ Word t := by
  obtain ⟨rfl, hrow⟩ := disputes_projected h hk
  simp only [Disputes.projected, Option.bind_eq_bind, Option.bind_eq_some_iff] at hrow
  obtain ⟨latest, hlatest, _, _, hrow⟩ := hrow
  cases htag : row.openedAt with
  | some t =>
      refine ⟨t, by rw [openedAt, htag]; rfl, ?_⟩
      have hopened : row.openedAt = _ := (congrArg DisputeRow.openedAt (Option.some.inj hrow)).symm
      obtain ⟨k', v, hk', hcolumn⟩ := exists_version h (hopened.symm.trans htag)
      obtain ⟨-, -, -, hword⟩ := disputeVersion_read h hk'
      exact hword t hcolumn
  | none =>
      cases hmin : minimum (fun version => some version.createdAt) db.disputeVersions
          (versionOf row.disputeId) with
      | none =>
          obtain ⟨⟨k', hk'⟩, hmine⟩ := first_mem hlatest
          cases minimum_eq_none_iff.mp hmin k' latest hk' hmine
      | some t =>
          exact ⟨t, by rw [openedAt, htag, Option.none_or, hmin], word_of_minimum h hmin⟩

/-- A line whose words are ones the wire can carry is a dispute, its clocks untouched. -/
theorem exists_intoDispute {line : DisputeLine}
    (hinitiator : ∀ wire ∈ line.initiator, ∃ side : Parse.Initiator, wire = side.asStr)
    (houtcome : ∀ wire ∈ line.outcome, ∃ status : Parse.DisputeStatus, wire = status.asStr)
    (hstatus : ∃ status : Parse.DisputeStatus, line.status = status.asStr) :
    ∃ dispute, DisputeLine.intoDispute (F := F) line = .ok dispute
      ∧ dispute.openedAt = line.openedAt ∧ dispute.resolvedAt = line.resolvedAt := by
  obtain ⟨status, hstatus⟩ := hstatus
  obtain ⟨side, hside⟩ := exists_decoded
      (f := fun wire => decode (F := F) "initiator" (Parse.Initiator.parse wire))
      fun wire hwire => by
    obtain ⟨side, rfl⟩ := hinitiator wire hwire
    exact ⟨side, by rw [initiator_parse_asStr]; rfl⟩
  obtain ⟨ended, hended⟩ := exists_decoded
      (f := fun wire => decode (F := F) "outcome" (Parse.DisputeStatus.parse wire))
      fun wire hwire => by
    obtain ⟨status, rfl⟩ := houtcome wire hwire
    exact ⟨status, by rw [disputeStatus_parse_asStr]; rfl⟩
  rw [DisputeLine.intoDispute, hside, hended, hstatus, disputeStatus_parse_asStr]
  exact ⟨_, rfl, rfl, rfl⟩

/-- **EVERY ROW OF A SETTLED DATABASE LOADS**, its clocks words. -/
theorem exists_dispute (h : Settled X db) {k : String} {row : DisputeRow}
    (hk : db.disputes[k]? = some row) :
    ∃ line dispute, disputeLine db row = .ok line
      ∧ DisputeLine.intoDispute (F := F) line = .ok dispute
      ∧ Word dispute.openedAt ∧ ∀ t ∈ dispute.resolvedAt, Word t := by
  obtain ⟨opened, hopened, hword⟩ := exists_openedAt h hk
  obtain ⟨rfl, hrow⟩ := disputes_projected h hk
  simp only [Disputes.projected, Option.bind_eq_bind, Option.bind_eq_some_iff] at hrow
  obtain ⟨latest, hlatest, _, _, hrow⟩ := hrow
  obtain ⟨⟨k', hk'⟩, -⟩ := first_mem hlatest
  obtain ⟨v, rfl, -, -⟩ := disputeVersion_read h hk'
  have hrow := Option.some.inj hrow
  have hinitiator : ∀ wire ∈ row.initiator, ∃ side : Parse.Initiator, wire = side.asStr := by
    intro wire hwire
    have hcolumn : row.initiator = _ := (congrArg DisputeRow.initiator hrow).symm
    obtain ⟨-, w, -, hside⟩ := exists_version h (hcolumn.symm.trans hwire)
    obtain ⟨side, -, hwire⟩ := Option.map_eq_some_iff.mp hside
    exact ⟨side, hwire.symm⟩
  have houtcome : ∀ wire ∈ outcome db row, ∃ status : Parse.DisputeStatus,
      wire = status.asStr := by
    intro wire hwire
    obtain ⟨version, hfirst, rfl⟩ := Option.map_eq_some_iff.mp hwire
    obtain ⟨⟨k'', hk''⟩, -⟩ := first_mem hfirst
    obtain ⟨w, rfl, -, -⟩ := disputeVersion_read h hk''
    exact ⟨w.status, rfl⟩
  have hstatus : row.finalStatus = v.status.asStr := by
    rw [← hrow]
    rfl
  obtain ⟨line, hline, hlineOpened, hlineResolved, hinitiator', houtcome', hstatus'⟩ :
      ∃ line, disputeLine db row = .ok line ∧ line.openedAt = opened
        ∧ line.resolvedAt = resolvedAt db row ∧ line.initiator = row.initiator
        ∧ line.outcome = outcome db row ∧ line.status = row.finalStatus := by
    rw [disputeLine, hopened]
    exact ⟨_, rfl, rfl, rfl, rfl, rfl, rfl⟩
  have hwords : ∀ wire ∈ line.initiator, ∃ side : Parse.Initiator, wire = side.asStr :=
    hinitiator'.symm ▸ hinitiator
  obtain ⟨dispute, hdispute, hsameOpened, hsameResolved⟩ := exists_intoDispute (F := F) hwords
    (houtcome'.symm ▸ houtcome) ⟨v.status, hstatus'.trans hstatus⟩
  refine ⟨line, dispute, hline, hdispute, ?_, fun t ht => ?_⟩
  · rw [hsameOpened, hlineOpened]
    exact hword
  · rw [hsameResolved, hlineResolved] at ht
    exact word_of_minimum h ht

/-- **THE LOAD OF A SETTLED DATABASE** succeeds, and what it says are words. -/
theorem disputeData_spec (h : Settled X db) (scope : Scope) :
    ∃ data, disputeData scope db = .ok data ∧ ∀ dispute ∈ data.disputes,
      Word dispute.openedAt ∧ ∀ t ∈ dispute.resolvedAt, Word t := by
  have hrows : ∀ row ∈ rowsBy (ascAsc (nullsFirst (openedAt db)) DisputeRow.disputeId) db.disputes
      (fun row => scope.appliesInstance row.pubkey), ∃ k : String, db.disputes[k]? = some row :=
    fun row hrow => (mem_rowsBy.mp hrow).1
  obtain ⟨lines, hlines⟩ := exists_mapM (f := disputeLine db) fun row hrow => by
    obtain ⟨k, hk⟩ := hrows row hrow
    obtain ⟨line, -, hline, -⟩ := exists_dispute h hk
    exact ⟨line, hline⟩
  have hread : ∀ line ∈ lines, ∃ dispute, DisputeLine.intoDispute (F := F) line = .ok dispute
      ∧ Word dispute.openedAt ∧ ∀ t ∈ dispute.resolvedAt, Word t := by
    intro line hline
    obtain ⟨row, hrow, hload⟩ := mem_of_mapM hlines hline
    obtain ⟨k, hk⟩ := hrows row hrow
    obtain ⟨line', dispute, hline', hdispute, hwords⟩ := exists_dispute h hk
    cases hload.symm.trans hline'
    exact ⟨dispute, hdispute, hwords⟩
  obtain ⟨all, hall⟩ := exists_mapM (f := DisputeLine.intoDispute (F := F)) fun line hline => by
    obtain ⟨dispute, hdispute, -⟩ := hread line hline
    exact ⟨dispute, hdispute⟩
  refine ⟨⟨all, taken scope db⟩, ?_, fun dispute hdispute => ?_⟩
  · rw [disputeData, disputes, hlines]
    show (do
      let all ← lines.mapM DisputeLine.intoDispute
      return (⟨all, taken scope db⟩ : DisputeData)) = _
    rw [hall]
    rfl
  · obtain ⟨line, hline, hload⟩ := mem_of_mapM hall hdispute
    obtain ⟨dispute', hdispute', hwords⟩ := hread line hline
    cases hload.symm.trans hdispute'
    exact hwords

/-- What the fees say are words. -/
theorem devFeeData_spec (h : Settled X db) (A : Floats F) (scope : Scope) :
    ∀ fee ∈ (devFeeData A scope db).fees, Word fee.createdAt ∧ ∀ t ∈ fee.settledAt, Word t := by
  intro fee hfee
  obtain ⟨row, hrow, rfl⟩ := List.mem_map.mp hfee
  obtain ⟨⟨k, hk⟩, -⟩ := mem_rowsBy.mp hrow
  constructor
  · have hunflagged : (unflagged db.devFees)[k]? = some { row with isDuplicate := false } := by
      rw [unflagged, Std.ExtTreeMap.getElem?_map, hk]
      rfl
    obtain ⟨r, -, hread⟩ := h.tables.devFees.sound k _ hunflagged
    have hclock : row.createdAt = r.rawJson.at := (readFee_origin hread).2.2
    show Word row.createdAt
    rw [hclock]
    exact asI64_fits _
  · intro t ht
    obtain ⟨order, horder, hsuccess⟩ := Option.bind_eq_some_iff.mp ht
    obtain ⟨horder, -⟩ := Option.filter_eq_some_iff.mp horder
    obtain ⟨-, hprojected⟩ := orders_projected h horder
    simp only [Orders.projected, Option.bind_eq_bind, Option.bind_eq_some_iff] at hprojected
    obtain ⟨latest, -, _, _, _, _, hrow⟩ := hprojected
    have hmin : order.successAt = _ := (congrArg OrderRow.successAt (Option.some.inj hrow)).symm
    obtain ⟨⟨k', version, hk', -, hclock⟩, -⟩ := minimum_eq_some_iff.mp (hmin.symm.trans hsuccess)
    obtain ⟨r, -, hread⟩ := h.tables.orderVersions.sound k' version hk'
    rw [Orders.whenStatus] at hclock
    split at hclock
    · cases hclock
      rw [(readOrder_origin hread).2.2]
      exact asI64_fits _
    · cases hclock

end Load
