import Bestiario.Repo

/-! # The pipeline: one event in, one outcome out

    `ingest/pipeline.rs`.  A parser says whether an event is well formed, a
    repository how a value is stored; this is the only place that says whether
    an event is ours.

    The state is the whole database, passed explicitly; the transaction of
    steps 6 to 8 is the composition of its statements.  An `Err` is the
    database being unusable: the transaction rolls back and the database is
    what it was, which `attempt` models.

    `Ingested` lists once what a call can do, guards included; every invariant
    of the later modules is a case analysis of it. -/

namespace Pipeline

open Keyed Wire Parse Repo

variable {F : Type}

/-! ## Policy and answers -/

/-- Which events this indexer wants. -/
structure Policy where
  instances : List String
  acceptUnknownInstances : Bool
  networks : List Network

/-- `Policy::new`: the allow-list is trimmed and lowercased. -/
def Policy.new (instances : List String) (acceptUnknownInstances : Bool)
    (networks : List Network) : Policy where
  instances := instances.map fun pubkey => (trim pubkey).toLower
  acceptUnknownInstances := acceptUnknownInstances
  networks := networks

/-- `lists_instance`. -/
def Policy.listsInstance (P : Policy) (pubkey : String) : Bool :=
  P.instances.contains pubkey.toLower

/-- `accepts_instance` (step 3). -/
def Policy.acceptsInstance (P : Policy) (pubkey : String) : Bool :=
  P.acceptUnknownInstances || P.listsInstance pubkey

/-- `accepts_network` (step 5). -/
def Policy.acceptsNetwork (P : Policy) (network : Network) : Bool :=
  decide (network ∈ P.networks)

/-- Why an event was not indexed. -/
inductive Rejection (F : Type) where
  | invalidSignature
  | unknownInstance (pubkey : String)
  | unvouchedPublisher (pubkey : String) (kind : UInt16)
  | otherPlatform (platform : Option String)
  | otherNetwork (network : Network)
  | unsupportedKind (kind : UInt16)
  | malformed (error : ParseError F)
  deriving DecidableEq

/-- What became of one event. -/
inductive IngestOutcome (F : Type) where
  | stored
  | duplicate
  | redundant
  | rejected (rejection : Rejection F)
  deriving DecidableEq

/-! ## Admission -/

/-- `admission`: steps 2 to 5, everything the event alone decides; `none` means
    wanted. -/
def admission (X : Externals F) (P : Policy) (e : Event) : Option (Rejection F) :=
  if !X.verify e then some .invalidSignature
  else if !P.acceptsInstance e.pubkey then some (.unknownInstance e.pubkey)
  else if platformTagged.contains e.kind && !isMostro e then
    some (.otherPlatform (platform e))
  else if networkTagged.contains e.kind then
    match optionalNetwork e with
    | .ok (some network) =>
        if P.acceptsNetwork network then none else some (.otherNetwork network)
    | .ok none => none
    | .error error => some (.malformed error)
  else none

/-- `vouched_for`: an untagged kind needs a listed or a proven publisher. -/
def vouchedFor (P : Policy) (e : Event) (db : Db F) : Option (Rejection F) :=
  if !untaggedKinds.contains e.kind then none
  else if P.listsInstance e.pubkey || Instances.isPlatformProven e.pubkey db then none
  else some (.unvouchedPublisher e.pubkey e.kind)

/-- The signature comes first: nothing unverified is admitted. -/
theorem verify_of_admission {X : Externals F} {P : Policy} {e : Event}
    (h : admission X P e = none) : X.verify e = true := by
  rw [admission] at h
  cases hv : X.verify e with
  | true => rfl
  | false =>
      rw [hv, Bool.not_false, if_pos rfl] at h
      exact nomatch h

/-! ## Parsing and persisting -/

/-- One published version of an event, as its kind reads it. -/
inductive Parsed (F : Type) where
  | order (version : OrderVersion F)
  | devFee (fee : DevFee)
  | dispute (version : DisputeVersion)
  | info (info : InstanceInfo F)
  | rates (snapshot : RateSnapshot F)
  | relayList (list : RelayList)

/-- `?` on a parser: its error becomes `Malformed`. -/
def malformed {T : Type} (read : Except (ParseError F) T) (wrap : T → Parsed F) :
    Except (Rejection F) (Parsed F) :=
  match read with
  | .ok value => .ok (wrap value)
  | .error error => .error (.malformed error)

/-- `parse`: the kind decides which parser reads the event. -/
def parse (X : Externals F) (e : Event) : Except (Rejection F) (Parsed F) :=
  if e.kind = orderKind then malformed (parseOrder X e) .order
  else if e.kind = devFeeKind then malformed (parseDevFee X e) .devFee
  else if e.kind = disputeKind then malformed (parseDispute e) .dispute
  else if e.kind = infoKind then malformed (parseInfo X e) .info
  else if e.kind = ratesKind then malformed (parseRates X e) .rates
  else if e.kind = relayListKind then malformed (parseRelayList X e) .relayList
  else .error (.unsupportedKind e.kind)

/-- The two statements every accepted event issues first: who published it. -/
def sighted (e : Event) (db : Db F) : Db F :=
  let db := Instances.upsert e.pubkey (instanceName e) e.at db
  match instanceName e with
  | some name => Instances.recordName e.pubkey name e.at db
  | none => db

/-- `persist`: the version and the projection it feeds. -/
def persist (X : Externals F) (e : Event) (parsed : Parsed F) (db : Db F) : Db F :=
  let db := sighted e db
  match parsed with
  | .order version =>
      Orders.refreshProjection version.orderId (Orders.insertVersion version db)
  | .devFee fee => DevFees.insert fee db
  | .dispute version =>
      Disputes.refreshProjection version.disputeId (Disputes.insertVersion version db)
  | .info info => InstanceInfos.insertVersion X info db
  | .rates snapshot => Rates.insert snapshot db
  | .relayList list =>
      list.relays.foldl
        (fun db url => Relays.upsert url (.nip65 list.pubkey) list.createdAt db) db

/-- `parsed_heartbeat`. -/
def parsedHeartbeat : Parsed F → Heartbeats.Heartbeat
  | .rates snapshot => .rates snapshot.publishedAt
  | .info _ => .announcement
  | .relayList _ => .announcement
  | .order _ => .none
  | .devFee _ => .none
  | .dispute _ => .none

/-! ## Ingest and replay -/

/-- The arguments of one call: an event, the relay it came from, the clock. -/
structure Call where
  event : Event
  relayUrl : String
  now : Int

/-- Step 8. -/
def advance (c : Call) (db : Db F) : Db F :=
  SyncState.advance c.relayUrl c.event.kind c.event.at c.now db

/-- The row step 6 writes. -/
def Call.record (c : Call) : EventRecord :=
  EventRecord.new c.event c.relayUrl c.now

/-- `Pipeline::ingest`. -/
def ingest (X : Externals F) (P : Policy) (c : Call) (db : Db F) :
    IngestOutcome F × Db F :=
  match admission X P c.event with
  | some rejection => (.rejected rejection, db)
  | none =>
    match vouchedFor P c.event db with
    | some rejection => (.rejected rejection, db)
    | none =>
      match parse X c.event with
      | .error rejection => (.rejected rejection, (Events.insertIfNew c.record db).2)
      | .ok parsed =>
          -- Step 6a: a heartbeat that repeats what is already archived.
          if Heartbeats.isRedundant c.event (parsedHeartbeat parsed) db then
            (.redundant, advance c (Instances.upsert c.event.pubkey none c.event.at db))
          else
            match Events.insertIfNew c.record db with
            | (false, db) => (.duplicate, advance c db)
            | (true, db) => (.stored, advance c (persist X c.event parsed db))

/-- `Pipeline::replay`: steps 2 to 6 skipped. -/
def replay (X : Externals F) (e : Event) (db : Db F) : IngestOutcome F × Db F :=
  match parse X e with
  | .error rejection => (.rejected rejection, db)
  | .ok parsed => (.stored, persist X e parsed db)

/-- Calls of `ingest` one after another. -/
def ingestAll (X : Externals F) (P : Policy) (calls : List Call) (db : Db F) : Db F :=
  calls.foldl (fun db c => (ingest X P c db).2) db

/-- A call, and whether its transaction committed. -/
structure Attempt where
  call : Call
  committed : Bool

/-- A call that fails is rolled back: the database is what it was. -/
def attempt (X : Externals F) (P : Policy) (a : Attempt) (db : Db F) : Db F :=
  if a.committed then (ingest X P a.call db).2 else db

/-- Attempts one after another. -/
def attemptAll (X : Externals F) (P : Policy) (attempts : List Attempt) (db : Db F) :
    Db F :=
  attempts.foldl (fun db a => attempt X P a db) db

/-! ## What a call can do -/

/-- An event past steps 2 to 5, the proof of its publisher included. -/
structure Admitted (X : Externals F) (P : Policy) (e : Event) (db : Db F) : Prop where
  admission : admission X P e = none
  vouched : vouchedFor P e db = none

/-- **THE FIVE WAYS A CALL ENDS**, each with the guard that led there. -/
inductive Ingested (X : Externals F) (P : Policy) (c : Call) (db : Db F) :
    IngestOutcome F → Db F → Prop where
  | turnedAway {rejection} (h : ¬ Admitted X P c.event db) :
      Ingested X P c db (.rejected rejection) db
  | unread {rejection} (h : Admitted X P c.event db)
      (hp : parse X c.event = .error rejection) :
      Ingested X P c db (.rejected rejection)
        { db with events := db.events.insertIfNew c.event.id c.record }
  | redundant {parsed} (h : Admitted X P c.event db) (hp : parse X c.event = .ok parsed)
      (hr : Heartbeats.isRedundant c.event (parsedHeartbeat parsed) db = true) :
      Ingested X P c db .redundant
        (advance c (Instances.upsert c.event.pubkey none c.event.at db))
  | duplicate {parsed record} (h : Admitted X P c.event db)
      (hp : parse X c.event = .ok parsed)
      (hr : Heartbeats.isRedundant c.event (parsedHeartbeat parsed) db = false)
      (hk : db.events[c.event.id]? = some record) :
      Ingested X P c db .duplicate (advance c db)
  | stored {parsed} (h : Admitted X P c.event db) (hp : parse X c.event = .ok parsed)
      (hr : Heartbeats.isRedundant c.event (parsedHeartbeat parsed) db = false)
      (hk : db.events[c.event.id]? = none) :
      Ingested X P c db .stored
        (advance c (persist X c.event parsed
          { db with events := db.events.insertIfNew c.event.id c.record }))

theorem ingested (X : Externals F) (P : Policy) (c : Call) (db : Db F) :
    Ingested X P c db (ingest X P c db).1 (ingest X P c db).2 := by
  rw [ingest]
  cases ha : admission X P c.event with
  | some rejection =>
      exact .turnedAway (fun h => nomatch ha.symm.trans h.admission)
  | none =>
      cases hv : vouchedFor P c.event db with
      | some rejection =>
          exact .turnedAway (fun h => nomatch hv.symm.trans h.vouched)
      | none =>
          cases hp : parse X c.event with
          | error rejection => exact .unread ⟨ha, hv⟩ hp
          | ok parsed =>
              dsimp only
              cases hr : Heartbeats.isRedundant c.event (parsedHeartbeat parsed) db with
              | true =>
                  rw [if_pos rfl]
                  exact .redundant ⟨ha, hv⟩ hp hr
              | false =>
                  rw [if_neg Bool.false_ne_true]
                  have hid : c.record.id = c.event.id := rfl
                  cases hk : db.events[c.event.id]? with
                  | none =>
                      rw [Events.insertIfNew, hid, hk]
                      exact .stored ⟨ha, hv⟩ hp hr hk
                  | some record =>
                      rw [Events.insertIfNew, hid, hk, insertIfNew_of_some hk]
                      exact .duplicate ⟨ha, hv⟩ hp hr hk

/-- The form a case analysis of a call starts from. -/
theorem ingest_cases (X : Externals F) (P : Policy) (c : Call) (db : Db F) :
    ∃ outcome db', ingest X P c db = (outcome, db') ∧ Ingested X P c db outcome db' :=
  ⟨_, _, rfl, ingested X P c db⟩

/-! ## What a call leaves alone -/

@[simp]
theorem advance_events (c : Call) (db : Db F) : (advance c db).events = db.events := rfl

theorem sighted_frame (e : Event) (db : Db F) :
    ∃ instances instanceNames,
      sighted e db = { db with instances, instanceNames } := by
  rw [sighted]
  cases instanceName e with
  | none => exact ⟨_, _, rfl⟩
  | some name => exact ⟨_, _, rfl⟩

theorem relays_frame (list : RelayList) (urls : List String) (db : Db F) :
    ∃ relays,
      urls.foldl
        (fun db url => Relays.upsert url (.nip65 list.pubkey) list.createdAt db) db
        = { db with relays } := by
  induction urls generalizing db with
  | nil => exact ⟨db.relays, rfl⟩
  | cons url rest ih =>
      obtain ⟨relays, h⟩ := ih (Relays.upsert url (.nip65 list.pubkey) list.createdAt db)
      exact ⟨relays, h⟩

end Pipeline
