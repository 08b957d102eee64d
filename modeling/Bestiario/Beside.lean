import Bestiario.Convergence
import Bestiario.Rebuild

/-! # A rebuild beside a sync

    A rebuild lets a sync keep writing.  Nothing it does to the tables is lost
    by that (`settled_interleaved`); what can be lost is an EVENT.  Ingest asks
    two questions of the very tables a `--from-raw` rebuild has emptied: is an
    untagged kind's publisher proven, and has this hour's snapshot been kept?
    Asked at the wrong moment, the first turns a relay list away for good and
    the second archives a snapshot the sync alone would have dropped.

    `settle` is the database those questions should be put to.  A run in which
    every call gets from the tables at hand the answer `settle` would give
    loses nothing (`rebuild_beside_sync`); one relay list arriving between the
    clears and the replay is lost (`rebuild_loses_relay_list`). -/

namespace Beside

open Keyed Wire Parse Repo Pipeline Derived Rebuild

variable {F : Type} {X : Externals F} {P : Policy}

/-! ## The tables the questions should be put to -/

/-- The view of the archive a reader makes. -/
def viewOf {V : Type} (read : Event → Option V) (events : Table String EventRecord) :
    Table String V :=
  events.filterMap fun _ r => read r.rawJson

/-- The database with its five views derived from the archive. -/
def settle (X : Externals F) (db : Db F) : Db F :=
  { db with
    orderVersions := viewOf (readOrder X) db.events
    disputeVersions := viewOf (readDispute X) db.events
    devFees := viewOf (readFee X) db.events
    instanceInfo := viewOf (readInfo X) db.events
    rates := viewOf (readRates X) db.events }

/-- The tables as the call finds them answer for `e` as the settled ones
    would: its publisher is vouched for and it says something new, or not,
    in both. -/
def Undisturbed (X : Externals F) (P : Policy) (e : Event) (db : Db F) : Prop :=
  admission X P e = none → db.events[e.id]? = none →
    kept X P e db = kept X P e (settle X db)

/-! ## What the questions read -/

theorem isEmpty_unflagged (fees : Table String FeeRow) (pubkey : String) :
    (rows (unflagged fees) fun row => row.pubkey == pubkey).isEmpty
      = (rows fees fun row => row.pubkey == pubkey).isEmpty := by
  rw [unflagged, rows_map, List.isEmpty_map]

theorem isPlatformProven_congr {db db' : Db F} (pubkey : String)
    (hov : db.orderVersions = db'.orderVersions)
    (hdv : db.disputeVersions = db'.disputeVersions)
    (hdf : unflagged db.devFees = unflagged db'.devFees)
    (hii : db.instanceInfo = db'.instanceInfo) :
    Instances.isPlatformProven pubkey db = Instances.isPlatformProven pubkey db' := by
  rw [Instances.isPlatformProven, Instances.isPlatformProven, hov, hdv, hii,
    ← isEmpty_unflagged db.devFees, ← isEmpty_unflagged db'.devFees, hdf]

theorem isRedundant_congr {db db' : Db F} (e : Event) (heartbeat : Heartbeats.Heartbeat)
    (he : db.events = db'.events) (hra : db.rates = db'.rates) :
    Heartbeats.isRedundant e heartbeat db = Heartbeats.isRedundant e heartbeat db' := by
  cases heartbeat with
  | none => rfl
  | rates publishedAt => rw [Heartbeats.isRedundant, Heartbeats.isRedundant, hra]
  | announcement =>
      rw [Heartbeats.isRedundant, Heartbeats.isRedundant, Heartbeats.previous,
        Heartbeats.previous, he]

/-- Both questions are answered from the archive and the views alone. -/
theorem kept_congr {db db' : Db F} (e : Event) (he : db.events = db'.events)
    (hov : db.orderVersions = db'.orderVersions)
    (hdv : db.disputeVersions = db'.disputeVersions)
    (hdf : unflagged db.devFees = unflagged db'.devFees)
    (hii : db.instanceInfo = db'.instanceInfo) (hra : db.rates = db'.rates) :
    kept X P e db = kept X P e db' := by
  have hvouched : vouchedFor P e db = vouchedFor P e db' := by
    rw [vouchedFor, vouchedFor, isPlatformProven_congr e.pubkey hov hdv hdf hii]
  rw [kept, kept, hvouched]
  cases parse X e with
  | error rejection => rfl
  | ok parsed => simp only [isRedundant_congr e (parsedHeartbeat parsed) he hra]

/-- A fee's row is read with its flag down. -/
theorem unflagged_viewOf (events : Table String EventRecord) :
    unflagged (viewOf (readFee X) events) = viewOf (readFee X) events := by
  refine ext (fun k => ?_)
  rw [unflagged, viewOf, Std.ExtTreeMap.getElem?_map, Std.ExtTreeMap.getElem?_filterMap']
  cases events[k]? with
  | none => rfl
  | some r =>
      cases hfee : readFee X r.rawJson with
      | none => simp [hfee]
      | some row =>
          obtain ⟨fee, -, rfl⟩ := readFee_eq_some.mp hfee
          simp only [Option.bind_some, hfee, Option.map_some]
          rfl

/-- A settled database answers as `settle` does, from the same archive. -/
theorem kept_settle {db db' : Db F} (e : Event) (h : Settled X db')
    (he : db.events = db'.events) : kept X P e (settle X db) = kept X P e db' := by
  refine kept_congr e he ?_ ?_ ?_ ?_ ?_
  · exact (he ▸ h.tables.orderVersions.eq_filterMap).symm
  · exact (he ▸ h.tables.disputeVersions.eq_filterMap).symm
  · rw [h.tables.devFees.eq_filterMap, ← he]
    exact unflagged_viewOf db.events
  · exact (he ▸ h.tables.instanceInfo.eq_filterMap).symm
  · exact (he ▸ h.tables.rates.eq_filterMap).symm

/-! ## Beside the rebuild, and without it -/

/-- **STEP**: an undisturbed call archives what the sync alone would. -/
theorem ingest_events_beside {db db' : Db F} (c : Call) (h : Settled X db')
    (he : db.events = db'.events) (hok : Undisturbed X P c.event db) :
    (ingest X P c db).2.events = (ingest X P c db').2.events := by
  rw [ingest_events, ingest_events, archives, archives]
  cases hadm : admission X P c.event with
  | some rejection => exact he
  | none =>
      cases hk : db.events[c.event.id]? with
      | some r =>
          rw [insertIfNew_of_some hk, insertIfNew_of_some (he ▸ hk), ite_self, ite_self, he]
      | none => rw [hok hadm hk, kept_settle c.event h he, he]

/-- **RUN**: the interleaved archive keeps up with the sync's own. -/
theorem interleaved_beside {db db' out : Db F} {todo : List Stmt} {calls : List Call}
    (h : Interleaved X P (Undisturbed X P) db todo calls out) (hset : Settled X db')
    (he : db.events = db'.events) : out.events = (ingestAll X P calls db').events := by
  induction h generalizing db' with
  | done db => exact he
  | stmt _ ih => exact ih hset ((exec_events _ _).trans he)
  | call hok _ ih =>
      exact ih (ingest_settled _ hset) (ingest_events_beside _ hset he hok)

/-- **A REBUILD BESIDE A SYNC LOSES NOTHING** as long as no call is answered
    from tables the rebuild has not refilled: the archive and the seven tables
    are those of the same calls without it. -/
theorem rebuild_beside_sync {db out : Db F} {calls : List Call} (hreach : Reachable X db)
    (h : Interleaved X P (Undisturbed X P) db (program true) calls out) :
    out.events = (ingestAll X P calls db).events ∧
      SameTables out (ingestAll X P calls db) := by
  have hset := hreach.settled
  have hevents := interleaved_beside h hset rfl
  have hout := settled_interleaved h (owing_program true hset)
  exact ⟨hevents, hout.unique (ingestAll_settled calls hset) hevents⟩

/-! ## An order kept, a relay list lost -/

/-- A relay list of the same publisher. -/
def relayListEvent : Event where
  id := "2000000000000000000000000000000000000000000000000000000000000001"
  pubkey := Convergence.alice
  createdAt := 1785600100
  kind := relayListKind
  tags := [["r", "wss://relay.mostro.network"]]
  content := ""
  sig := ""

/-- The order that proves the publisher, its completion, and the relay list. -/
def signed : Externals Int :=
  Externals.over [Convergence.pendingOrder, Convergence.completedOrder, relayListEvent]
    (by decide) []

/-- An archive holding the order. -/
def proven : Db Int :=
  (ingest signed Convergence.openPolicy
    ⟨Convergence.pendingOrder, "wss://a", 1785601000⟩ Db.empty).2

theorem reachable_proven : Reachable signed proven := .ingest _ _ .empty

/-- The call that delivers the completed order. -/
def completedCall : Call := ⟨Convergence.completedOrder, "wss://a", 1785601001⟩

/-- The call that delivers the relay list. -/
def relayListCall : Call := ⟨relayListEvent, "wss://a", 1785601001⟩

theorem rebuild_beside_completed :
    ∃ out, out.events = (ingestAll signed Convergence.openPolicy [completedCall]
        proven).events ∧
      SameTables out (ingestAll signed Convergence.openPolicy [completedCall] proven) := by
  have hok : Undisturbed signed Convergence.openPolicy completedCall.event
      (clearRaw true proven) := fun _ _ => by decide +kernel
  have hrest := interleaved_derivation (X := signed) (P := Convergence.openPolicy)
    (Undisturbed signed Convergence.openPolicy)
    (ingest signed Convergence.openPolicy completedCall (clearRaw true proven)).2
  exact ⟨_, rebuild_beside_sync reachable_proven
    (.stmt (.stmt (.stmt (.stmt (.stmt (.call hok hrest))))))⟩

/-- **LOST**: delivered between the clears and the replay, the relay list of a
    proven publisher is turned away; the same call without the rebuild keeps
    it. -/
theorem rebuild_loses_relay_list :
    Reachable signed proven ∧ ∃ out,
      Interleaved signed Convergence.openPolicy (fun _ _ => True) proven
        (program true) [relayListCall] out ∧
      out.events ≠ (ingestAll signed Convergence.openPolicy [relayListCall]
        proven).events := by
  have hrest := interleaved_derivation (X := signed) (P := Convergence.openPolicy)
    (fun _ _ => True)
    (ingest signed Convergence.openPolicy relayListCall (clearRaw true proven)).2
  refine ⟨reachable_proven, _,
    .stmt (.stmt (.stmt (.stmt (.stmt (.call trivial hrest))))), ?_⟩
  rw [interleaved_events hrest]
  intro heq
  have hlost : (ingest signed Convergence.openPolicy relayListCall
      (clearRaw true proven)).2.events[relayListEvent.id]? = none := by decide +kernel
  have hkept : (ingestAll signed Convergence.openPolicy [relayListCall]
      proven).events[relayListEvent.id]? = some relayListCall.record := by decide +kernel
  rw [heq, hkept] at hlost
  exact nomatch hlost

end Beside
