import Bestiario.Sync
import Bestiario.Dialling
import Bestiario.Lib.FirstWrite

/-! # Who named a relay first

    `db/repo/relays.rs` and `commands/relays.rs`.  The table has one row per URL,
    with whoever named it first, and the connection set is the configured relays
    and, with discovery on, the URLs an instance was the first to name.  Reading
    the set writes: the configured relays are recorded on the way. -/

/-! ## The table -/

namespace Repo

open Keyed

variable {F : Type}

/-- `Source::as_stored`. -/
def Source.asStored : Source → String
  | .config => "config"
  | .nip65 pubkey => "nip65:" ++ pubkey

/-- `Source::parse`: a text that is no `nip65:` reads as configured. -/
def Source.parse (stored : String) : Source :=
  if "nip65:".toList.isPrefixOf stored.toList then
    .nip65 (String.ofList (stored.toList.drop "nip65:".toList.length))
  else .config

/-- A source reads back as it was stored. -/
theorem Source.parse_asStored (source : Source) : Source.parse source.asStored = source := by
  cases source with
  | config => decide
  | nip65 pubkey =>
      have hpre : "nip65:".toList.isPrefixOf ("nip65:" ++ pubkey).toList = true := by
        rw [List.isPrefixOf_iff_prefix, String.toList_append]
        exact List.prefix_append _ _
      rw [Source.asStored, Source.parse, if_pos hpre, String.toList_append,
        List.drop_left, String.ofList_toList]

/-- `relays::all`: every relay known, first seen first. -/
def Relays.all (db : Db F) : List Relay :=
  rowsBy (ascAsc Relay.firstSeenAt Relay.url) db.relays fun _ => true

/-- `relays::discovered`: those an instance named first. -/
def Relays.discovered (db : Db F) : List Relay :=
  (Relays.all db).filter fun relay => relay.source != .config

end Repo

namespace Dialling

open Keyed Wire Parse Repo Pipeline Gather

variable {F : Type} {X : Externals F} {P : Policy}

/-! ## The connection set -/

/-- What `[nostr]` says of the relays. -/
structure NostrSettings where
  relays : List String
  discoverRelays : Bool

/-- `connection_set`: the configured relays, recorded as such on the way, and the
    discovered ones after them. -/
def connectionSet (S : NostrSettings) (now : Int) (db : Db F) : List String × Db F :=
  let db := S.relays.foldl (fun db url => Relays.upsert url .config now db) db
  if S.discoverRelays then
    ((Relays.discovered db).foldl
      (fun set relay => if set.contains relay.url then set else set ++ [relay.url]) S.relays, db)
  else (S.relays, db)

/-! ## What touches the table -/

/-- The relays an event's list names, if it is one. -/
def advertised (X : Externals F) (e : Event) : List String :=
  match parse X e with
  | .ok (.relayList list) => list.relays
  | _ => []

/-- The rows a relay list leaves. -/
def Relay.advertised (X : Externals F) (e : Event) : List Relay :=
  (Dialling.advertised X e).map fun url => ⟨url, .nip65 e.pubkey, e.at⟩

/-- The rows the configuration leaves. -/
def Relay.configured (S : NostrSettings) (now : Int) : List Relay :=
  S.relays.map fun url => ⟨url, .config, now⟩

theorem upserts_eq (urls : List String) (source : Source) (at' : Int) (db : Db F) :
    urls.foldl (fun db url => Relays.upsert url source at' db) db
      = { db with
          relays := writeAll Relay.url (urls.map fun url => ⟨url, source, at'⟩) db.relays } := by
  induction urls generalizing db with
  | nil => rfl
  | cons url rest ih =>
      rw [List.foldl_cons, ih]
      rfl

theorem relayList_origin {e : Event} {list : RelayList} (h : parse X e = .ok (.relayList list)) :
    list.pubkey = e.pubkey ∧ list.createdAt = e.at := by
  have hread : parseRelayList X e = .ok list := by
    simpa using Derived.parse_cases h
  simp only [parseRelayList, bind_eq_ok] at hread
  obtain ⟨_, -, hread⟩ := hread
  cases hread
  exact ⟨rfl, rfl⟩

/-- `persist` names what the event advertises. -/
theorem persist_relays {e : Event} {p : Parsed F} (hp : parse X e = .ok p) (db : Db F) :
    (persist X e p db).relays = writeAll Relay.url (Relay.advertised X e) db.relays := by
  obtain ⟨instances, instanceNames, hsight⟩ := sighted_frame e db
  rw [Relay.advertised, advertised, hp]
  unfold persist
  rw [hsight]
  cases p with
  | order v =>
      dsimp only
      rw [Derived.refreshOrder_eq]
      rfl
  | devFee fee => rfl
  | dispute v =>
      dsimp only
      rw [Derived.refreshDispute_eq]
      rfl
  | info info => rfl
  | rates snapshot => rfl
  | relayList list =>
      obtain ⟨hpubkey, hat⟩ := relayList_origin hp
      dsimp only
      rw [upserts_eq, hpubkey, hat]

/-- What touches the table: a connection set read, or an event taken in. -/
inductive Touch where
  | connect (S : NostrSettings) (now : Int)
  | ingest (c : Call)

namespace Touch

/-- The database after it. -/
def apply (X : Externals F) (P : Policy) : Touch → Db F → Db F
  | .connect S now, db => (connectionSet S now db).2
  | .ingest c, db => (Pipeline.ingest X P c db).2

/-- The rows it tries to write. -/
def names (X : Externals F) (P : Policy) (db : Db F) : Touch → List Relay
  | .connect S now => Relay.configured S now
  | .ingest c =>
      match (Pipeline.ingest X P c db).1 with
      | .stored => Relay.advertised X c.event
      | _ => []

end Touch

/-- The database after touches one after another. -/
def touched (X : Externals F) (P : Policy) (touches : List Touch) (db : Db F) : Db F :=
  touches.foldl (fun db touch => touch.apply X P db) db

/-- Every row they try to write, in order. -/
def named (X : Externals F) (P : Policy) : List Touch → Db F → List Relay
  | [], _ => []
  | touch :: rest, db => touch.names X P db ++ named X P rest (touch.apply X P db)

theorem connectionSet_db (S : NostrSettings) (now : Int) (db : Db F) :
    (connectionSet S now db).2
      = { db with relays := writeAll Relay.url (Relay.configured S now) db.relays } := by
  rw [connectionSet, upserts_eq]
  by_cases hdiscover : S.discoverRelays = true
  · rw [if_pos hdiscover]
    rfl
  · rw [if_neg hdiscover]
    rfl

/-- **STEP**: a touch writes what it names, and a URL already there keeps its row. -/
theorem relays_apply (touch : Touch) (db : Db F) :
    (touch.apply X P db).relays = writeAll Relay.url (touch.names X P db) db.relays := by
  cases touch with
  | connect S now =>
      show (connectionSet S now db).2.relays = _
      rw [connectionSet_db]
      rfl
  | ingest c =>
      show (Pipeline.ingest X P c db).2.relays = _
      rw [Touch.names]
      obtain ⟨outcome, db', heq, hcases⟩ := ingest_cases X P c db
      rw [heq]
      cases hcases with
      | turnedAway _ => rfl
      | unread _ _ => rfl
      | redundant _ _ _ => rfl
      | duplicate _ _ _ _ => rfl
      | stored _ hp _ _ => exact persist_relays hp _

/-- **RUN**: the table is the rows named, the first of each URL. -/
theorem relays_touched (touches : List Touch) (db : Db F) :
    (touched X P touches db).relays
      = writeAll Relay.url (named X P touches db) db.relays := by
  induction touches generalizing db with
  | nil => rfl
  | cons touch rest ih =>
      show (touched X P rest (touch.apply X P db)).relays = _
      rw [ih, relays_apply, named, writeAll_append]

theorem touched_concat (touches : List Touch) (touch : Touch) (db : Db F) :
    touched X P (touches ++ [touch]) db = touch.apply X P (touched X P touches db) := by
  rw [touched, List.foldl_append]
  rfl

section Set

variable {S : NostrSettings} {now : Int} {db : Db F} {url : String}

/-- The discovered relays are one reading of the table. -/
theorem discovered_eq (db : Db F) :
    Relays.discovered db
      = rowsBy (ascAsc Relay.firstSeenAt Relay.url) db.relays fun row => row.source != .config := by
  rw [Relays.discovered, Relays.all, ← rowsBy_and]
  simp only [Bool.true_and]

theorem mem_discovered {relay : Relay} :
    relay ∈ Relays.discovered db
      ↔ (∃ k : String, db.relays[k]? = some relay) ∧ relay.source ≠ .config := by
  rw [discovered_eq, mem_rowsBy, bne_iff_ne]

/-- Reading the set discovers nothing and forgets nothing. -/
theorem discovered_connectionSet (S : NostrSettings) (now : Int) (db : Db F) :
    Relays.discovered (connectionSet S now db).2 = Relays.discovered db := by
  have hconfigured : ∀ (list : List Relay) (t : Table String Relay),
      (∀ row ∈ list, row.source = .config) →
      rows (writeAll Relay.url list t) (fun row => row.source != .config)
        = rows t fun row => row.source != .config := by
    intro list
    induction list with
    | nil =>
        intro t _
        rfl
    | cons row rest ih =>
        intro t h
        have hrow : (row.source != .config) = false := by
          rw [h row List.mem_cons_self]
          rfl
        show rows (writeAll Relay.url rest (t.insertIfNew row.url row)) _ = _
        rw [ih _ fun r hr => h r (List.mem_cons_of_mem _ hr)]
        have hskip := @rows_insertIfNew_of_not String Relay _ _ _ _ t
          (fun row => row.source != .config) row.url row hrow
        exact hskip
  rw [discovered_eq, discovered_eq, connectionSet_db, rowsBy, rowsBy]
  refine congrArg _ (hconfigured _ _ fun row hrow => ?_)
  obtain ⟨u, -, rfl⟩ := List.mem_map.mp hrow
  rfl

theorem connectionSet_eq :
    (connectionSet S now db).1 = if S.discoverRelays then
        gather (fun _ relay => some relay.url) 0 (Relays.discovered db) S.relays
      else S.relays := by
  have hloop : ∀ (relays : List Relay) (i : Nat) (set : List String),
      relays.foldl (fun set relay =>
          if set.contains relay.url then set else set ++ [relay.url]) set
        = gather (fun _ relay => some relay.url) i relays set := by
    intro relays
    induction relays with
    | nil =>
        intro i set
        rfl
    | cons relay rest ih =>
        intro i set
        rw [List.foldl_cons, gather, ← contains_keep]
        exact ih (i + 1) _
  rw [← discovered_connectionSet S now, connectionSet]
  by_cases hdiscover : S.discoverRelays = true
  · rw [if_pos hdiscover, if_pos hdiscover]
    exact hloop _ 0 S.relays
  · rw [if_neg hdiscover, if_neg hdiscover]

/-- What is in the set: the configured, and with discovery on the discovered. -/
theorem mem_connectionSet :
    url ∈ (connectionSet S now db).1 ↔ url ∈ S.relays
      ∨ S.discoverRelays = true ∧ ∃ relay ∈ Relays.discovered db, relay.url = url := by
  rw [connectionSet_eq]
  by_cases hdiscover : S.discoverRelays = true
  · rw [if_pos hdiscover, mem_gather, Offered]
    refine or_congr_right ⟨?_, ?_⟩
    · rintro ⟨n, relay, hn, hurl⟩
      exact ⟨hdiscover, relay, List.mem_of_getElem? hn, Option.some.inj hurl⟩
    · rintro ⟨-, relay, hrelay, rfl⟩
      obtain ⟨n, hn⟩ := List.getElem?_of_mem hrelay
      exact ⟨n, relay, hn, rfl⟩
  · rw [if_neg hdiscover]
    simp [hdiscover]

/-- A set read twice is the same set. -/
theorem connectionSet_twice :
    (connectionSet S now (connectionSet S now db).2).1 = (connectionSet S now db).1 := by
  rw [connectionSet_eq, connectionSet_eq, discovered_connectionSet]

/-- **THE SET ONLY GROWS**: what it names once it names after any further run. -/
theorem mem_connectionSet_touched {touches : List Touch} {later : Int}
    (h : url ∈ (connectionSet S now db).1) :
    url ∈ (connectionSet S later (touched X P touches db)).1 := by
  rw [mem_connectionSet] at h ⊢
  rcases h with hconfigured | ⟨hdiscover, relay, hrelay, hurl⟩
  · exact Or.inl hconfigured
  · obtain ⟨⟨k, hk⟩, hsource⟩ := mem_discovered.mp hrelay
    refine Or.inr ⟨hdiscover, relay, mem_discovered.mpr ⟨⟨k, ?_⟩, hsource⟩, hurl⟩
    rw [relays_touched]
    exact writeAll_of_some hk

end Set

end Dialling
