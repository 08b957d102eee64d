import Bestiario.Lib.View
import Bestiario.Pipeline

/-! # What the archive derives

    The archive is `events`; seven tables are functions of it.  Five are VIEWS
    (one row per event that reads as one) and two are PROJECTIONS of a view
    (one row per order, one per dispute).  `dev_fees` is a view with a flag on
    top, recomputed for a whole order at a time.

    `Consistent X db owed` says so of a database that may lag behind: `owed`
    names the archived events whose row is still to be written.  Ingest runs
    with nothing owed; a rebuild owes everything once it has emptied the
    tables, and pays it back event by event.  One lemma about `persist` and
    one about `ingest` carry it. -/

namespace Derived

open Keyed Wire Parse Repo Pipeline

variable {F : Type} {X : Externals F}

/-! ## What an event reads as -/

/-- The `order_versions` row of an event. -/
def readOrder (X : Externals F) (e : Event) : Option (OrderVersionRow F) :=
  match parse X e with
  | .ok (.order version) => some (Orders.rowOf version)
  | _ => none

/-- The `dispute_versions` row of an event. -/
def readDispute (X : Externals F) (e : Event) : Option DisputeVersionRow :=
  match parse X e with
  | .ok (.dispute version) => some (Disputes.rowOf version)
  | _ => none

/-- The `dev_fees` row of an event, its flag down. -/
def readFee (X : Externals F) (e : Event) : Option FeeRow :=
  match parse X e with
  | .ok (.devFee fee) => some (DevFees.rowOf fee)
  | _ => none

/-- The `instance_info` row of an event. -/
def readInfo (X : Externals F) (e : Event) : Option (InstanceInfo F) :=
  match parse X e with
  | .ok (.info info) => some (InstanceInfos.rowOf X info)
  | _ => none

/-- The `rates` row of an event. -/
def readRates (X : Externals F) (e : Event) : Option (RateSnapshot F) :=
  match parse X e with
  | .ok (.rates snapshot) => some snapshot
  | _ => none

theorem malformed_eq_ok {T : Type} {read : Except (ParseError F) T}
    {wrap : T → Parsed F} {p : Parsed F} (h : malformed read wrap = .ok p) :
    ∃ v, read = .ok v ∧ p = wrap v := by
  cases read with
  | error error => exact nomatch h
  | ok v =>
      cases h
      exact ⟨v, rfl, rfl⟩

/-- A kind is read by one parser, and that parser's value is all there is. -/
theorem parse_cases {e : Event} {p : Parsed F} (h : parse X e = .ok p) :
    (∃ v, p = .order v ∧ parseOrder X e = .ok v)
    ∨ (∃ v, p = .devFee v ∧ parseDevFee X e = .ok v)
    ∨ (∃ v, p = .dispute v ∧ parseDispute (F := F) e = .ok v)
    ∨ (∃ v, p = .info v ∧ parseInfo X e = .ok v)
    ∨ (∃ v, p = .rates v ∧ parseRates X e = .ok v)
    ∨ (∃ v, p = .relayList v ∧ parseRelayList X e = .ok v) := by
  rw [parse] at h
  split_ifs at h
  · obtain ⟨v, hv, hp⟩ := malformed_eq_ok h
    exact .inl ⟨v, hp, hv⟩
  · obtain ⟨v, hv, hp⟩ := malformed_eq_ok h
    exact .inr (.inl ⟨v, hp, hv⟩)
  · obtain ⟨v, hv, hp⟩ := malformed_eq_ok h
    exact .inr (.inr (.inl ⟨v, hp, hv⟩))
  · obtain ⟨v, hv, hp⟩ := malformed_eq_ok h
    exact .inr (.inr (.inr (.inl ⟨v, hp, hv⟩)))
  · obtain ⟨v, hv, hp⟩ := malformed_eq_ok h
    exact .inr (.inr (.inr (.inr (.inl ⟨v, hp, hv⟩))))
  · obtain ⟨v, hv, hp⟩ := malformed_eq_ok h
    exact .inr (.inr (.inr (.inr (.inr ⟨v, hp, hv⟩))))

theorem parse_order {e : Event} {v : OrderVersion F} (h : parse X e = .ok (.order v)) :
    parseOrder X e = .ok v := by
  simpa using parse_cases h

theorem parse_devFee {e : Event} {v : DevFee} (h : parse X e = .ok (.devFee v)) :
    parseDevFee X e = .ok v := by
  simpa using parse_cases h

theorem parse_dispute {e : Event} {v : DisputeVersion}
    (h : parse X e = .ok (.dispute v)) : parseDispute (F := F) e = .ok v := by
  simpa using parse_cases h

theorem parse_info {e : Event} {v : InstanceInfo F} (h : parse X e = .ok (.info v)) :
    parseInfo X e = .ok v := by
  simpa using parse_cases h

theorem parse_rates {e : Event} {v : RateSnapshot F} (h : parse X e = .ok (.rates v)) :
    parseRates X e = .ok v := by
  simpa using parse_cases h

theorem readOrder_eq_some {e : Event} {row : OrderVersionRow F} :
    readOrder X e = some row ↔ ∃ v, parse X e = .ok (.order v) ∧ Orders.rowOf v = row := by
  rw [readOrder]
  constructor
  · intro h
    split at h
    next v hp => exact ⟨v, hp, Option.some.inj h⟩
    next => exact nomatch h
  · rintro ⟨v, hp, rfl⟩
    rw [hp]

theorem readDispute_eq_some {e : Event} {row : DisputeVersionRow} :
    readDispute X e = some row ↔
      ∃ v, parse X e = .ok (.dispute v) ∧ Disputes.rowOf v = row := by
  rw [readDispute]
  constructor
  · intro h
    split at h
    next v hp => exact ⟨v, hp, Option.some.inj h⟩
    next => exact nomatch h
  · rintro ⟨v, hp, rfl⟩
    rw [hp]

theorem readFee_eq_some {e : Event} {row : FeeRow} :
    readFee X e = some row ↔ ∃ v, parse X e = .ok (.devFee v) ∧ DevFees.rowOf v = row := by
  rw [readFee]
  constructor
  · intro h
    split at h
    next v hp => exact ⟨v, hp, Option.some.inj h⟩
    next => exact nomatch h
  · rintro ⟨v, hp, rfl⟩
    rw [hp]

theorem readInfo_eq_some {e : Event} {row : InstanceInfo F} :
    readInfo X e = some row ↔
      ∃ v, parse X e = .ok (.info v) ∧ InstanceInfos.rowOf X v = row := by
  rw [readInfo]
  constructor
  · intro h
    split at h
    next v hp => exact ⟨v, hp, Option.some.inj h⟩
    next => exact nomatch h
  · rintro ⟨v, hp, rfl⟩
    rw [hp]

theorem readRates_eq_some {e : Event} {row : RateSnapshot F} :
    readRates X e = some row ↔ parse X e = .ok (.rates row) := by
  rw [readRates]
  constructor
  · intro h
    split at h
    next v hp =>
      cases h
      exact hp
    next => exact nomatch h
  · intro hp
    rw [hp]

/-- A row names its event, its publisher and its clock. -/
theorem readOrder_origin {e : Event} {row : OrderVersionRow F}
    (h : readOrder X e = some row) :
    row.eventId = e.id ∧ row.pubkey = e.pubkey ∧ row.createdAt = e.at := by
  obtain ⟨v, hp, rfl⟩ := readOrder_eq_some.mp h
  exact (parseOrder_origin (parse_order hp)).2

theorem readDispute_origin {e : Event} {row : DisputeVersionRow}
    (h : readDispute X e = some row) :
    row.eventId = e.id ∧ row.pubkey = e.pubkey ∧ row.createdAt = e.at := by
  obtain ⟨v, hp, rfl⟩ := readDispute_eq_some.mp h
  exact (parseDispute_origin (parse_dispute hp)).2

theorem readFee_origin {e : Event} {row : FeeRow} (h : readFee X e = some row) :
    row.eventId = e.id ∧ row.pubkey = e.pubkey ∧ row.createdAt = e.at := by
  obtain ⟨v, hp, rfl⟩ := readFee_eq_some.mp h
  exact (parseDevFee_origin (parse_devFee hp)).2

theorem readInfo_origin {e : Event} {row : InstanceInfo F} (h : readInfo X e = some row) :
    row.eventId = e.id ∧ row.pubkey = e.pubkey ∧ row.createdAt = e.at := by
  obtain ⟨v, hp, rfl⟩ := readInfo_eq_some.mp h
  exact (parseInfo_origin (parse_info hp)).2

theorem readRates_origin {e : Event} {row : RateSnapshot F}
    (h : readRates X e = some row) : row.eventId = e.id ∧ row.pubkey = e.pubkey :=
  (parseRates_origin (parse_rates (readRates_eq_some.mp h))).2

theorem readRates_kind {e : Event} {row : RateSnapshot F} (h : readRates X e = some row) :
    e.kind = ratesKind :=
  (parseRates_origin (parse_rates (readRates_eq_some.mp h))).1

/-- Two verified events with one id read as the same thing: a signature is all
    they can differ in. -/
theorem parse_eq_of_id {e e' : Event} (h : X.verify e = true) (h' : X.verify e' = true)
    (hid : e.id = e'.id) : parse X e = parse X e' := by
  have hbody := X.verify_body e e' h h' hid
  obtain ⟨id, pubkey, createdAt, kind, tags, content, sig⟩ := e
  obtain ⟨id', pubkey', createdAt', kind', tags', content', sig'⟩ := e'
  simp only [Event.body, Prod.mk.injEq] at hbody hid
  obtain ⟨rfl, rfl, rfl, rfl, rfl⟩ := hbody
  subst hid
  rfl

/-! ## The two projections -/

/-- `orders` as a grouped projection of `order_versions`. -/
def orders : Projector String (OrderVersionRow F) String (OrderRow F) where
  group := OrderVersionRow.orderId
  key := OrderRow.orderId
  project := Orders.projected
  project_congr := by
    intro t t' g h
    simp only [Orders.projected, first_congr h, minimum_congr h, maximum_congr h]
  project_eq_none := by
    intro t g
    rw [← first_eq_none_iff Orders.newest]
    cases hf : first Orders.newest t fun row => row.orderId == g with
    | none => simp [Orders.projected, hf]
    | some latest =>
        -- A group with a latest version has a least and a greatest clock too.
        obtain ⟨⟨k, hk⟩, hp⟩ := first_mem hf
        cases hmin : minimum (fun row => some row.createdAt) t fun row => row.orderId == g with
        | none => exact nomatch minimum_eq_none_iff.mp hmin k latest hk hp
        | some lo =>
            cases hmax : maximum (fun row => some row.createdAt) t
                fun row => row.orderId == g with
            | none => exact nomatch maximum_eq_none_iff.mp hmax k latest hk hp
            | some hi => simp [Orders.projected, hf, hmin, hmax]
  project_key := by
    intro t g p h
    simp only [Orders.projected, Option.bind_eq_bind, Option.bind_eq_some_iff] at h
    obtain ⟨latest, hf, lo, -, hi, -, h⟩ := h
    cases h
    exact eq_of_beq (first_mem hf).2

theorem refreshOrder_eq (orderId : String) (db : Db F) :
    Orders.refreshProjection orderId db
      = { db with orders := orders.refresh orderId db.orderVersions db.orders } := by
  have hproject : orders.project db.orderVersions orderId
      = Orders.projected db.orderVersions orderId := rfl
  rw [Orders.refreshProjection, Projector.refresh, hproject]
  cases Orders.projected db.orderVersions orderId with
  | none => rfl
  | some row => rfl

/-- `disputes` as a grouped projection of `dispute_versions`. -/
def disputes : Projector String DisputeVersionRow String DisputeRow where
  group := DisputeVersionRow.disputeId
  key := DisputeRow.disputeId
  project := Disputes.projected
  project_congr := by
    intro t t' g h
    have hopened := rows_and_congr (fun row : DisputeVersionRow => row.openedAt.isSome) h
    have hinitiator := rows_and_congr (fun row : DisputeVersionRow => row.initiator.isSome) h
    simp only [Disputes.projected, first_congr h, maximum_congr h, first_congr hopened,
      first_congr hinitiator]
  project_eq_none := by
    intro t g
    rw [← first_eq_none_iff Disputes.newest]
    cases hf : first Disputes.newest t fun row => row.disputeId == g with
    | none => simp [Disputes.projected, hf]
    | some latest =>
        obtain ⟨⟨k, hk⟩, hp⟩ := first_mem hf
        cases hmax : maximum (fun row => some row.createdAt) t
            fun row => row.disputeId == g with
        | none => exact nomatch maximum_eq_none_iff.mp hmax k latest hk hp
        | some hi => simp [Disputes.projected, hf, hmax]
  project_key := by
    intro t g p h
    simp only [Disputes.projected, Option.bind_eq_bind, Option.bind_eq_some_iff] at h
    obtain ⟨latest, hf, hi, -, h⟩ := h
    cases h
    exact eq_of_beq (first_mem hf).2

theorem refreshDispute_eq (disputeId : String) (db : Db F) :
    Disputes.refreshProjection disputeId db
      = { db with
          disputes := disputes.refresh disputeId db.disputeVersions db.disputes } := by
  have hproject : disputes.project db.disputeVersions disputeId
      = Disputes.projected db.disputeVersions disputeId := rfl
  rw [Disputes.refreshProjection, Projector.refresh, hproject]
  cases Disputes.projected db.disputeVersions disputeId with
  | none => rfl
  | some row => rfl

/-! ## Dev fees and their flags -/

/-- The fees with every flag down: what the archive says of them. -/
def unflagged (fees : Table String FeeRow) : Table String FeeRow :=
  fees.map fun _ row => { row with isDuplicate := false }

/-- Every flag is the one a recomputation would set. -/
def Flagged (fees : Table String FeeRow) : Prop :=
  ∀ (k : String) row, fees[k]? = some row →
    row.isDuplicate = (some row.eventId != DevFees.canonical fees row.orderId)

/-- The flag is not part of what decides which fee counts. -/
theorem canonical_map (fees : Table String FeeRow) (flag : FeeRow → Bool)
    (orderId : String) :
    DevFees.canonical (fees.map fun _ row => { row with isDuplicate := flag row }) orderId
      = DevFees.canonical fees orderId := by
  have hfirst := first_map (ascAsc FeeRow.createdAt FeeRow.eventId)
    (ascAsc FeeRow.createdAt FeeRow.eventId)
    (fun row => { row with isDuplicate := flag row }) fees
    (fun row => row.orderId == orderId) (fun _ => rfl)
  rw [DevFees.canonical, DevFees.canonical, hfirst, Option.map_map]
  rfl

/-- The flag `refresh_duplicates` gives one row. -/
def flag (fees : Table String FeeRow) (orderId : String) (row : FeeRow) : Bool :=
  if row.orderId = orderId then
    some row.eventId != DevFees.canonical fees orderId
  else row.isDuplicate

/-- The table after `refresh_duplicates`. -/
def reflagged (fees : Table String FeeRow) (orderId : String) : Table String FeeRow :=
  fees.map fun _ row => { row with isDuplicate := flag fees orderId row }

theorem refreshDuplicates_eq (orderId : String) (db : Db F) :
    DevFees.refreshDuplicates orderId db
      = { db with devFees := reflagged db.devFees orderId } := by
  rw [DevFees.refreshDuplicates, reflagged]
  congr 2
  funext _ row
  rw [flag]
  split
  · rfl
  · rfl

/-- Rows whose flag is right for every other order get right for this one. -/
theorem flagged_refresh {fees : Table String FeeRow} {orderId : String}
    (h : ∀ (k : String) row, fees[k]? = some row → row.orderId ≠ orderId →
      row.isDuplicate = (some row.eventId != DevFees.canonical fees row.orderId)) :
    Flagged (reflagged fees orderId) := by
  intro k row hk
  rw [reflagged, Std.ExtTreeMap.getElem?_map, Option.map_eq_some_iff] at hk
  obtain ⟨old, hold, rfl⟩ := hk
  rw [reflagged, canonical_map, flag]
  by_cases ho : old.orderId = orderId
  · rw [if_pos ho, ho]
  · rw [if_neg ho]
    exact h k old hold ho

/-- **A REFRESH OF RIGHT FLAGS CHANGES NOTHING.** -/
theorem refreshDuplicates_of_flagged {db : Db F} (h : Flagged db.devFees)
    (orderId : String) : DevFees.refreshDuplicates orderId db = db := by
  rw [refreshDuplicates_eq]
  have hsame : reflagged db.devFees orderId = db.devFees := by
    refine ext (fun k => ?_)
    rw [reflagged, Std.ExtTreeMap.getElem?_map]
    cases hk : db.devFees[k]? with
    | none => rfl
    | some row =>
        have hflag : flag db.devFees orderId row = row.isDuplicate := by
          rw [flag]
          by_cases ho : row.orderId = orderId
          · rw [if_pos ho, h k row hk, ho]
          · rw [if_neg ho]
        rw [Option.map_some, hflag]
  rw [hsame]

theorem insertFee_eq (fee : DevFee) (db : Db F) :
    DevFees.insert fee db =
      let fees := db.devFees.insertIfNew fee.eventId (DevFees.rowOf fee)
      { db with devFees := reflagged fees fee.orderId } := by
  rw [DevFees.insert, refreshDuplicates_eq]

/-- Inserting a fee leaves every flag right. -/
theorem flagged_insert {db : Db F} (h : Flagged db.devFees) (fee : DevFee) :
    Flagged (DevFees.insert fee db).devFees := by
  rw [insertFee_eq]
  refine flagged_refresh ?_
  intro k row hk hne
  have hold : db.devFees[k]? = some row := by
    rw [getElem?_insertIfNew_eq] at hk
    by_cases hid : fee.eventId = k
    · rw [if_pos hid] at hk
      cases hfees : db.devFees[k]? with
      | some old =>
          rw [hfees] at hk
          exact hk
      | none =>
          -- The new row belongs to the refreshed order, which is excluded.
          rw [hfees] at hk
          cases hk
          exact absurd rfl hne
    · rw [if_neg hid] at hk
      exact hk
  have hframe : DevFees.canonical (db.devFees.insertIfNew fee.eventId (DevFees.rowOf fee))
      row.orderId = DevFees.canonical db.devFees row.orderId := by
    have hrows : rows (db.devFees.insertIfNew fee.eventId (DevFees.rowOf fee))
        (fun old => old.orderId == row.orderId)
        = rows db.devFees fun old => old.orderId == row.orderId :=
      rows_insertIfNew_of_not (beq_false_of_ne (Ne.symm hne))
    rw [DevFees.canonical, DevFees.canonical, first_congr hrows]
  rw [hframe]
  exact h k row hold

/-- Flags apart, inserting a fee is storing its row. -/
theorem unflagged_insert (fee : DevFee) (db : Db F) :
    unflagged (DevFees.insert fee db).devFees
      = (unflagged db.devFees).insertIfNew fee.eventId (DevFees.rowOf fee) := by
  rw [insertFee_eq]
  refine ext (fun k => ?_)
  simp only [unflagged, reflagged, Std.ExtTreeMap.getElem?_map, getElem?_insertIfNew_eq]
  by_cases hid : fee.eventId = k
  · rw [if_pos hid, if_pos hid]
    cases db.devFees[k]? with
    | none => rfl
    | some row => rfl
  · rw [if_neg hid, if_neg hid]
    cases db.devFees[k]? with
    | none => rfl
    | some row => rfl

/-! ## The invariant -/

/-- The seven tables are what the archive derives, rows still `owed` apart;
    and an archive row is the one `EventRecord::new` wrote. -/
structure Consistent (X : Externals F) (db : Db F) (owed : String → Prop) : Prop where
  keyed : ∀ (k : String) r, db.events[k]? = some r →
    r.id = k ∧ r = EventRecord.new r.rawJson r.relayUrl r.seenAt
  orderVersions :
    Tracks (fun r => readOrder X r.rawJson) db.events db.orderVersions owed
  disputeVersions :
    Tracks (fun r => readDispute X r.rawJson) db.events db.disputeVersions owed
  devFees :
    Tracks (fun r => readFee X r.rawJson) db.events (unflagged db.devFees) owed
  flags : Flagged db.devFees
  instanceInfo :
    Tracks (fun r => readInfo X r.rawJson) db.events db.instanceInfo owed
  rates : Tracks (fun r => readRates X r.rawJson) db.events db.rates owed

/-- Every order's row is the projection of its versions, or is owed. -/
def OrdersCurrent (db : Db F) (owed : String → Prop) : Prop :=
  Current (orders.project db.orderVersions) db.orders owed

/-- Every dispute's row is the projection of its versions, or is owed. -/
def DisputesCurrent (db : Db F) (owed : String → Prop) : Prop :=
  Current (disputes.project db.disputeVersions) db.disputes owed

/-- A database nothing is owed to. -/
structure Settled (X : Externals F) (db : Db F) : Prop where
  tables : Consistent X db fun _ => False
  orders : OrdersCurrent db fun _ => False
  disputes : DisputesCurrent db fun _ => False

/-- The seven derived tables agree. -/
structure SameTables (db db' : Db F) : Prop where
  orderVersions : db.orderVersions = db'.orderVersions
  orders : db.orders = db'.orders
  disputeVersions : db.disputeVersions = db'.disputeVersions
  disputes : db.disputes = db'.disputes
  devFees : db.devFees = db'.devFees
  instanceInfo : db.instanceInfo = db'.instanceInfo
  rates : db.rates = db'.rates

theorem Consistent.mono {db : Db F} {owed owed' : String → Prop}
    (h : Consistent X db owed) (hle : ∀ k, owed k → owed' k) : Consistent X db owed' where
  keyed := h.keyed
  orderVersions := h.orderVersions.mono hle
  disputeVersions := h.disputeVersions.mono hle
  devFees := h.devFees.mono hle
  flags := h.flags
  instanceInfo := h.instanceInfo.mono hle
  rates := h.rates.mono hle

/-- The flags are settled by the fees they are on. -/
theorem flagged_unique {fees fees' : Table String FeeRow} (h : Flagged fees)
    (h' : Flagged fees') (heq : unflagged fees = unflagged fees') : fees = fees' := by
  have hcanonical : ∀ orderId, DevFees.canonical fees orderId
      = DevFees.canonical fees' orderId := by
    intro orderId
    rw [← canonical_map fees (fun _ => false), ← canonical_map fees' (fun _ => false)]
    exact congrArg (DevFees.canonical · orderId) heq
  refine ext (fun k => ?_)
  have hk : (unflagged fees)[k]? = (unflagged fees')[k]? := by rw [heq]
  rw [unflagged, unflagged, Std.ExtTreeMap.getElem?_map, Std.ExtTreeMap.getElem?_map] at hk
  cases hrow : fees[k]? with
  | none =>
      rw [hrow] at hk
      cases hrow' : fees'[k]? with
      | none => rfl
      | some row' =>
          rw [hrow'] at hk
          exact nomatch hk
  | some row =>
      cases hrow' : fees'[k]? with
      | none =>
          rw [hrow, hrow'] at hk
          exact nomatch hk
      | some row' =>
          rw [hrow, hrow'] at hk
          have hfields := Option.some.inj hk
          have hflag := h k row hrow
          have hflag' := h' k row' hrow'
          rw [hcanonical] at hflag
          obtain ⟨⟩ := row
          obtain ⟨⟩ := row'
          simp only [FeeRow.mk.injEq] at hfields
          obtain ⟨rfl, rfl, rfl, rfl, rfl, rfl, rfl, rfl, -⟩ := hfields
          simp only at hflag hflag'
          rw [hflag, hflag']

/-- **THE SEVEN TABLES ARE A FUNCTION OF THE ARCHIVE.** -/
theorem Settled.unique {db db' : Db F} (h : Settled X db) (h' : Settled X db')
    (he : db.events = db'.events) : SameTables db db' := by
  have hov : db.orderVersions = db'.orderVersions :=
    h.tables.orderVersions.unique (he ▸ h'.tables.orderVersions)
  have hdv : db.disputeVersions = db'.disputeVersions :=
    h.tables.disputeVersions.unique (he ▸ h'.tables.disputeVersions)
  exact {
    orderVersions := hov
    orders := Current.unique h.orders (hov ▸ h'.orders)
    disputeVersions := hdv
    disputes := Current.unique h.disputes (hdv ▸ h'.disputes)
    devFees := flagged_unique h.tables.flags h'.tables.flags
      (h.tables.devFees.unique (he ▸ h'.tables.devFees))
    instanceInfo := h.tables.instanceInfo.unique (he ▸ h'.tables.instanceInfo)
    rates := h.tables.rates.unique (he ▸ h'.tables.rates) }

theorem settled_empty : Settled X (Db.empty : Db F) where
  tables := {
    keyed := fun _ _ h => (nomatch h)
    orderVersions := ⟨fun _ _ h => (nomatch h), fun _ _ _ h => (nomatch h)⟩
    disputeVersions := ⟨fun _ _ h => (nomatch h), fun _ _ _ h => (nomatch h)⟩
    devFees := ⟨fun _ _ h => (nomatch h), fun _ _ _ h => (nomatch h)⟩
    flags := fun _ _ h => (nomatch h)
    instanceInfo := ⟨fun _ _ h => (nomatch h), fun _ _ _ h => (nomatch h)⟩
    rates := ⟨fun _ _ h => (nomatch h), fun _ _ _ h => (nomatch h)⟩ }
  orders := by
    intro orderId
    have hnone : orders.project (∅ : Table String (OrderVersionRow F)) orderId = none :=
      orders.project_eq_none.mpr (fun _ _ h => nomatch h)
    exact Or.inl hnone.symm
  disputes := by
    intro disputeId
    have hnone : disputes.project ∅ disputeId = none :=
      disputes.project_eq_none.mpr (fun _ _ h => nomatch h)
    exact Or.inl hnone.symm

/-! ## Persisting one event -/

/-- The seven tables after `persist`, whatever the event read as. -/
structure Persisted (X : Externals F) (e : Event) (db db' : Db F) : Prop where
  events : db'.events = db.events
  orderVersions : db'.orderVersions = put db.orderVersions e.id (readOrder X e)
  disputeVersions : db'.disputeVersions = put db.disputeVersions e.id (readDispute X e)
  devFees : unflagged db'.devFees = put (unflagged db.devFees) e.id (readFee X e)
  flags : Flagged db.devFees → Flagged db'.devFees
  instanceInfo : db'.instanceInfo = put db.instanceInfo e.id (readInfo X e)
  rates : db'.rates = put db.rates e.id (readRates X e)
  orders : ∀ {owed}, OrdersCurrent db owed → OrdersCurrent db' owed
  disputes : ∀ {owed}, DisputesCurrent db owed → DisputesCurrent db' owed
  syncState : db'.syncState = db.syncState
  indexedKinds : db'.indexedKinds = db.indexedKinds

/-- **ONE LEMMA FOR THE SIX KINDS**: what `persist` writes is what the event
    reads as. -/
theorem persisted {e : Event} {p : Parsed F} (hp : parse X e = .ok p) (db : Db F) :
    Persisted X e db (persist X e p db) := by
  obtain ⟨instances, instanceNames, hsight⟩ := sighted_frame e db
  unfold persist
  rw [hsight]
  cases p with
  | order v =>
      -- Of these tables it writes the order's versions and its row.
      have hid : v.eventId = e.id := (parseOrder_origin (parse_order hp)).2.1
      have horder : readOrder X e = some (Orders.rowOf v) :=
        readOrder_eq_some.mpr ⟨v, hp, rfl⟩
      dsimp only
      rw [refreshOrder_eq]
      exact {
        events := rfl
        orderVersions := by rw [horder, ← hid]; rfl
        disputeVersions := by rw [readDispute, hp]; rfl
        devFees := by rw [readFee, hp]; rfl
        flags := id
        instanceInfo := by rw [readInfo, hp]; rfl
        rates := by rw [readRates, hp]; rfl
        orders := fun h => orders.insert_refresh_current v.eventId (Orders.rowOf v) h
        disputes := id
        syncState := rfl
        indexedKinds := rfl }
  | devFee fee =>
      have hid : fee.eventId = e.id := (parseDevFee_origin (parse_devFee hp)).2.1
      have hfee : readFee X e = some (DevFees.rowOf fee) :=
        readFee_eq_some.mpr ⟨fee, hp, rfl⟩
      exact {
        events := rfl
        orderVersions := by rw [readOrder, hp]; rfl
        disputeVersions := by rw [readDispute, hp]; rfl
        devFees := by
          rw [hfee, ← hid]
          exact unflagged_insert fee _
        flags := fun h => flagged_insert h fee
        instanceInfo := by rw [readInfo, hp]; rfl
        rates := by rw [readRates, hp]; rfl
        orders := id
        disputes := id
        syncState := rfl
        indexedKinds := rfl }
  | dispute v =>
      have hid : v.eventId = e.id := (parseDispute_origin (parse_dispute hp)).2.1
      have hdispute : readDispute X e = some (Disputes.rowOf v) :=
        readDispute_eq_some.mpr ⟨v, hp, rfl⟩
      dsimp only
      rw [refreshDispute_eq]
      exact {
        events := rfl
        orderVersions := by rw [readOrder, hp]; rfl
        disputeVersions := by rw [hdispute, ← hid]; rfl
        devFees := by rw [readFee, hp]; rfl
        flags := id
        instanceInfo := by rw [readInfo, hp]; rfl
        rates := by rw [readRates, hp]; rfl
        orders := id
        disputes := fun h => disputes.insert_refresh_current v.eventId (Disputes.rowOf v) h
        syncState := rfl
        indexedKinds := rfl }
  | info info =>
      have hid : info.eventId = e.id := (parseInfo_origin (parse_info hp)).2.1
      have hinfo : readInfo X e = some (InstanceInfos.rowOf X info) :=
        readInfo_eq_some.mpr ⟨info, hp, rfl⟩
      exact {
        events := rfl
        orderVersions := by rw [readOrder, hp]; rfl
        disputeVersions := by rw [readDispute, hp]; rfl
        devFees := by rw [readFee, hp]; rfl
        flags := id
        instanceInfo := by rw [hinfo, ← hid]; rfl
        rates := by rw [readRates, hp]; rfl
        orders := id
        disputes := id
        syncState := rfl
        indexedKinds := rfl }
  | rates snapshot =>
      have hid : snapshot.eventId = e.id := (parseRates_origin (parse_rates hp)).2.1
      have hrates : readRates X e = some snapshot := readRates_eq_some.mpr hp
      exact {
        events := rfl
        orderVersions := by rw [readOrder, hp]; rfl
        disputeVersions := by rw [readDispute, hp]; rfl
        devFees := by rw [readFee, hp]; rfl
        flags := id
        instanceInfo := by rw [readInfo, hp]; rfl
        rates := by rw [hrates, ← hid]; rfl
        orders := id
        disputes := id
        syncState := rfl
        indexedKinds := rfl }
  | relayList list =>
      -- The relays are a table of their own, which none of these reads.
      dsimp only
      obtain ⟨relays, hrelays⟩ := relays_frame list list.relays
        { db with instances, instanceNames }
      rw [hrelays]
      exact {
        events := rfl
        orderVersions := by rw [readOrder, hp]; rfl
        disputeVersions := by rw [readDispute, hp]; rfl
        devFees := by rw [readFee, hp]; rfl
        flags := id
        instanceInfo := by rw [readInfo, hp]; rfl
        rates := by rw [readRates, hp]; rfl
        orders := id
        disputes := id
        syncState := rfl
        indexedKinds := rfl }

/-- Replaying an archived event settles what was owed for it. -/
theorem Consistent.persist {db : Db F} {owed : String → Prop} {e : Event} {p : Parsed F}
    {r : EventRecord} (h : Consistent X db owed) (hp : parse X e = .ok p)
    (hk : db.events[e.id]? = some r) (hr : r.rawJson = e) :
    Consistent X (persist X e p db) fun k => owed k ∧ k ≠ e.id := by
  have hdb := persisted hp db
  subst hr
  exact {
    keyed := by
      rw [hdb.events]
      exact h.keyed
    orderVersions := by
      rw [hdb.events, hdb.orderVersions]
      exact h.orderVersions.put hk
    disputeVersions := by
      rw [hdb.events, hdb.disputeVersions]
      exact h.disputeVersions.put hk
    devFees := by
      rw [hdb.events, hdb.devFees]
      exact h.devFees.put hk
    flags := hdb.flags h.flags
    instanceInfo := by
      rw [hdb.events, hdb.instanceInfo]
      exact h.instanceInfo.put hk
    rates := by
      rw [hdb.events, hdb.rates]
      exact h.rates.put hk }

/-- An unreadable event owes the tables nothing. -/
theorem Consistent.skip {db : Db F} {owed : String → Prop} {e : Event} {r : EventRecord}
    {rejection : Rejection F} (h : Consistent X db owed)
    (hp : parse X e = .error rejection) (hk : db.events[e.id]? = some r)
    (hr : r.rawJson = e) : Consistent X db fun k => owed k ∧ k ≠ e.id := by
  subst hr
  have horder : readOrder X r.rawJson = none := by rw [readOrder, hp]
  have hdispute : readDispute X r.rawJson = none := by rw [readDispute, hp]
  have hfee : readFee X r.rawJson = none := by rw [readFee, hp]
  have hinfo : readInfo X r.rawJson = none := by rw [readInfo, hp]
  have hrates : readRates X r.rawJson = none := by rw [readRates, hp]
  have hov := h.orderVersions.put hk
  have hdv := h.disputeVersions.put hk
  have hdf := h.devFees.put hk
  have hii := h.instanceInfo.put hk
  have hra := h.rates.put hk
  simp only [horder, hdispute, hfee, hinfo, hrates, put] at hov hdv hdf hii hra
  exact ⟨h.keyed, hov, hdv, hdf, h.flags, hii, hra⟩

/-- An event entering the archive is owed until it is persisted. -/
theorem Consistent.archive {db : Db F} {owed : String → Prop} (c : Call)
    (h : Consistent X db owed) :
    Consistent X { db with events := db.events.insertIfNew c.event.id c.record }
      fun k => owed k ∨ k = c.event.id where
  keyed := by
    intro k r hk
    rw [getElem?_insertIfNew_eq] at hk
    by_cases hid : c.event.id = k
    · rw [if_pos hid] at hk
      cases hold : db.events[k]? with
      | some old =>
          rw [hold] at hk
          exact h.keyed k r (hold.trans hk)
      | none =>
          rw [hold] at hk
          cases hk
          exact ⟨hid, rfl⟩
    · rw [if_neg hid] at hk
      exact h.keyed k r hk
  orderVersions := h.orderVersions.append
  disputeVersions := h.disputeVersions.append
  devFees := h.devFees.append
  flags := h.flags
  instanceInfo := h.instanceInfo.append
  rates := h.rates.append

/-! ## Ingesting one event -/

theorem archived_lookup {db : Db F} (c : Call) (hk : db.events[c.event.id]? = none) :
    (db.events.insertIfNew c.event.id c.record)[c.event.id]? = some c.record := by
  rw [getElem?_insertIfNew_eq, if_pos rfl, hk]
  rfl

/-- The two questions a call puts to the tables: is the publisher vouched for,
    and does the event say anything new? -/
def kept (X : Externals F) (P : Policy) (e : Event) (db : Db F) : Bool :=
  (vouchedFor P e db).isNone
    && match parse X e with
      | .error _ => true
      | .ok parsed => !Heartbeats.isRedundant e (parsedHeartbeat parsed) db

/-- Whether a call gives its event a place in the archive. -/
def archives (X : Externals F) (P : Policy) (e : Event) (db : Db F) : Bool :=
  (admission X P e).isNone && kept X P e db

/-- The archive only ever grows, by the event at hand. -/
theorem ingest_events (P : Policy) (c : Call) (db : Db F) :
    (ingest X P c db).2.events
      = if archives X P c.event db then db.events.insertIfNew c.event.id c.record
        else db.events := by
  obtain ⟨outcome, db', heq, hcases⟩ := ingest_cases X P c db
  rw [heq]
  cases hcases with
  | turnedAway h =>
      have hno : archives X P c.event db = false := by
        rw [archives, kept]
        cases ha : admission X P c.event with
        | some _ => rfl
        | none =>
            cases hv : vouchedFor P c.event db with
            | some _ => rfl
            | none => exact absurd ⟨ha, hv⟩ h
      rw [if_neg (by rw [hno]; exact Bool.false_ne_true)]
  | unread h hp =>
      rw [if_pos]
      rw [archives, kept, h.admission, h.vouched, hp]
      rfl
  | redundant h hp hr =>
      rw [if_neg]
      · rfl
      · rw [archives, kept, h.admission, h.vouched, hp]
        simp [hr]
  | duplicate h hp hr hk =>
      rw [insertIfNew_of_some hk, ite_self]
      rfl
  | stored h hp hr hk =>
      rw [if_pos]
      · exact (persisted hp _).events
      · rw [archives, kept, h.admission, h.vouched, hp]
        simp [hr]

/-- An archived event stays as it was archived. -/
theorem ingest_events_mono (P : Policy) (c : Call) {db : Db F} {k : String}
    {r : EventRecord} (h : db.events[k]? = some r) :
    (ingest X P c db).2.events[k]? = some r := by
  rw [ingest_events]
  split
  · rw [getElem?_insertIfNew_eq, h]
    split
    · rfl
    · rfl
  · exact h

/-- A row of the new archive is an old one or the event at hand. -/
theorem ingest_events_cases {P : Policy} {c : Call} {db : Db F} {k : String}
    {r : EventRecord} (h : (ingest X P c db).2.events[k]? = some r) :
    db.events[k]? = some r
      ∨ archives X P c.event db = true ∧ k = c.event.id ∧ r = c.record := by
  rw [ingest_events] at h
  cases harch : archives X P c.event db with
  | false =>
      rw [harch, if_neg Bool.false_ne_true] at h
      exact Or.inl h
  | true =>
      rw [harch, if_pos rfl] at h
      rcases getElem?_insertIfNew_eq_some.mp h with hold | ⟨-, hid, hr⟩
      · exact Or.inl hold
      · exact Or.inr ⟨rfl, hid, hr⟩

theorem admission_of_archives {P : Policy} {e : Event} {db : Db F}
    (h : archives X P e db = true) : admission X P e = none := by
  rw [archives, Bool.and_eq_true] at h
  exact Option.isNone_iff_eq_none.mp h.1

/-- The id an archived event is filed under is its own. -/
theorem Consistent.rawJson_id {db : Db F} {owed : String → Prop}
    (h : Consistent X db owed) {k : String} {r : EventRecord}
    (hk : db.events[k]? = some r) : r.rawJson.id = k := by
  obtain ⟨hkey, hnew⟩ := h.keyed k r hk
  rw [← hkey, hnew]
  rfl

/-- **STEP**: a call pays for what it archives, whatever else is owed. -/
theorem ingest_consistent {P : Policy} {db : Db F} {owed : String → Prop} (c : Call)
    (h : Consistent X db owed) : Consistent X (ingest X P c db).2 owed := by
  obtain ⟨outcome, db', heq, hcases⟩ := ingest_cases X P c db
  rw [heq]
  cases hcases with
  | turnedAway _ => exact h
  | unread _ hp =>
      cases hk : db.events[c.event.id]? with
      | some old =>
          rw [insertIfNew_of_some hk]
          exact h
      | none =>
          refine ((h.archive c).skip hp (archived_lookup c hk) rfl).mono ?_
          rintro k ⟨howed | rfl, hne⟩
          · exact howed
          · exact absurd rfl hne
  | redundant _ _ _ =>
      exact ⟨h.keyed, h.orderVersions, h.disputeVersions, h.devFees, h.flags,
        h.instanceInfo, h.rates⟩
  | duplicate _ _ _ _ =>
      exact ⟨h.keyed, h.orderVersions, h.disputeVersions, h.devFees, h.flags,
        h.instanceInfo, h.rates⟩
  | @stored parsed _ hp _ hk =>
      have hstep : Consistent X (persist X c.event parsed
          { db with events := db.events.insertIfNew c.event.id c.record }) owed := by
        refine ((h.archive c).persist hp (archived_lookup c hk) rfl).mono ?_
        rintro k ⟨howed | rfl, hne⟩
        · exact howed
        · exact absurd rfl hne
      exact ⟨hstep.keyed, hstep.orderVersions, hstep.disputeVersions, hstep.devFees,
        hstep.flags, hstep.instanceInfo, hstep.rates⟩

theorem ingest_ordersCurrent {P : Policy} {db : Db F} {owed : String → Prop} (c : Call)
    (h : OrdersCurrent db owed) : OrdersCurrent (ingest X P c db).2 owed := by
  obtain ⟨outcome, db', heq, hcases⟩ := ingest_cases X P c db
  rw [heq]
  cases hcases with
  | turnedAway _ => exact h
  | unread _ _ => exact h
  | redundant _ _ _ => exact h
  | duplicate _ _ _ _ => exact h
  | stored _ hp _ _ => exact (persisted hp _).orders h

theorem ingest_disputesCurrent {P : Policy} {db : Db F} {owed : String → Prop} (c : Call)
    (h : DisputesCurrent db owed) : DisputesCurrent (ingest X P c db).2 owed := by
  obtain ⟨outcome, db', heq, hcases⟩ := ingest_cases X P c db
  rw [heq]
  cases hcases with
  | turnedAway _ => exact h
  | unread _ _ => exact h
  | redundant _ _ _ => exact h
  | duplicate _ _ _ _ => exact h
  | stored _ hp _ _ => exact (persisted hp _).disputes h

theorem ingest_settled {P : Policy} {db : Db F} (c : Call) (h : Settled X db) :
    Settled X (ingest X P c db).2 :=
  ⟨ingest_consistent c h.tables, ingest_ordersCurrent c h.orders,
    ingest_disputesCurrent c h.disputes⟩

/-- **RUN**: ingest never leaves anything owed. -/
theorem ingestAll_settled {P : Policy} (calls : List Call) {db : Db F}
    (h : Settled X db) : Settled X (ingestAll X P calls db) := by
  induction calls generalizing db with
  | nil => exact h
  | cons c rest ih => exact ih (ingest_settled c h)

theorem attempt_settled {P : Policy} {db : Db F} (a : Attempt) (h : Settled X db) :
    Settled X (attempt X P a db) := by
  rw [attempt]
  cases a.committed with
  | true => exact ingest_settled a.call h
  | false => exact h

theorem attemptAll_settled {P : Policy} (attempts : List Attempt) {db : Db F}
    (h : Settled X db) : Settled X (attemptAll X P attempts db) := by
  induction attempts generalizing db with
  | nil => exact h
  | cons a rest ih => exact ih (attempt_settled a h)

end Derived
