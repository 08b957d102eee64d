import Bestiario.Rebuild
import Bestiario.Sync

/-! # What admission lets in

    Steps 2 to 5 are decided once, on arrival: signature, publisher, platform,
    network, and for a kind that carries no `y` tag whether its publisher is one
    this archive has reason to believe.  A rebuild asks none of it again.

    It need not.  What was admitted is in the archive and the archive only
    grows; the tables are read off the archive (`Settled`); and a publisher once
    proven stays proven, because the rows that prove it are read off the archive
    too.  `Guarded` is that, as an invariant of every operation. -/

namespace Admission

open Keyed Wire Parse Repo Pipeline Derived Rebuild

variable {F : Type} {X : Externals F} {P : Policy} {db db' : Db F}

/-! ## What the rows are to come from -/

/-- A signed event of an accepted publisher whose only `y` tag says `mostro`. -/
structure Genuine (X : Externals F) (P : Policy) (e : Event) : Prop where
  verified : X.verify e = true
  publisher : P.acceptsInstance e.pubkey = true
  platform : ∃ rest, repeatedTagValues e "y" = [mostro :: rest]

/-- Whatever network the event names is one the policy accepts. -/
def OnNetwork (P : Policy) (e : Event) : Prop :=
  ∀ values ∈ repeatedTagValues e "network", (∀ value ∈ values, isBlank value = true)
    ∨ ∃ network, values = [Network.asStr network] ∧ P.acceptsNetwork network = true

/-- The publisher has a row in one of the four tables whose events carry `y`. -/
def HasRow (pubkey : String) (db : Db F) : Prop :=
  (∃ (k : String) (row : OrderVersionRow F), db.orderVersions[k]? = some row
      ∧ row.pubkey = pubkey)
    ∨ (∃ (k : String) (row : FeeRow), db.devFees[k]? = some row ∧ row.pubkey = pubkey)
    ∨ (∃ (k : String) (row : DisputeVersionRow), db.disputeVersions[k]? = some row
      ∧ row.pubkey = pubkey)
    ∨ ∃ (k : String) (row : InstanceInfo F), db.instanceInfo[k]? = some row
      ∧ row.pubkey = pubkey

/-- The publisher is listed, or has such a row. -/
def Believed (P : Policy) (pubkey : String) (db : Db F) : Prop :=
  P.listsInstance pubkey = true ∨ HasRow pubkey db

/-- Every row is what an admitted event of the archive says, and no publisher of
    rates or of relays is taken at their word. -/
structure Sound (X : Externals F) (P : Policy) (db : Db F) : Prop where
  orderVersions : ∀ (k : String) row, db.orderVersions[k]? = some row →
    ∃ r, db.events[k]? = some r ∧ readOrder X r.rawJson = some row
      ∧ Genuine X P r.rawJson ∧ OnNetwork P r.rawJson
  devFees : ∀ (k : String) row, db.devFees[k]? = some row →
    ∃ r, db.events[k]? = some r ∧ readFee X r.rawJson = some { row with isDuplicate := false }
      ∧ Genuine X P r.rawJson ∧ OnNetwork P r.rawJson
  disputeVersions : ∀ (k : String) row, db.disputeVersions[k]? = some row →
    ∃ r, db.events[k]? = some r ∧ readDispute X r.rawJson = some row
      ∧ Genuine X P r.rawJson
  instanceInfo : ∀ (k : String) row, db.instanceInfo[k]? = some row →
    ∃ r, db.events[k]? = some r ∧ readInfo X r.rawJson = some row ∧ Genuine X P r.rawJson
  rates : ∀ (k : String) row, db.rates[k]? = some row → Believed P row.pubkey db
  relays : ∀ (url : String) row pubkey, db.relays[url]? = some row →
    row.source = .nip65 pubkey → Believed P pubkey db

/-! ## Operations -/

/-- What changes the database: a call of `ingest`, or a rebuild run to its end. -/
inductive Operation where
  | ingest (call : Call)
  | rebuild (fromRaw : Bool)

/-- The database after one operation. -/
def Operation.run (X : Externals F) (P : Policy) (operation : Operation) (db : Db F) : Db F :=
  match operation with
  | .ingest call => (Pipeline.ingest X P call db).2
  | .rebuild fromRaw => (Rebuild.rebuild X fromRaw db).2

/-- The database after operations one after another. -/
def runAll (X : Externals F) (P : Policy) (operations : List Operation) (db : Db F) : Db F :=
  operations.foldl (fun db operation => operation.run X P db) db

/-- **THE INVARIANT**: what is archived was admitted, an untagged event's publisher
    is still believed, and a relay a list named is named by a list archived. -/
structure Guarded (X : Externals F) (P : Policy) (db : Db F) : Prop where
  settled : Settled X db
  admitted : ∀ (k : String) r, db.events[k]? = some r → admission X P r.rawJson = none
  believed : ∀ (k : String) r, db.events[k]? = some r →
    untaggedKinds.contains r.rawJson.kind = true → Believed P r.rawJson.pubkey db
  named : ∀ (url : String) row pubkey, db.relays[url]? = some row →
    row.source = .nip65 pubkey → ∃ (k : String) (r : EventRecord),
      db.events[k]? = some r ∧ r.rawJson.kind = relayListKind ∧ r.rawJson.pubkey = pubkey

/-! ## What admission decides -/

/-- One of a thing: the readers of single tags refuse a repeat. -/
theorem repeatedTagValues_of_tagValues {e : Event} {name : String}
    {values : Option (List String)} (h : tagValues (F := F) e name = .ok values) :
    repeatedTagValues e name = values.toList := by
  rw [tagValues] at h
  split at h
  next hnone =>
    cases h
    exact hnone
  next hone =>
    cases h
    exact hone
  next => cases h

theorem platform_of_isMostro {e : Event} (h : isMostro e = true) :
    ∃ rest, repeatedTagValues e "y" = [mostro :: rest] := by
  rw [isMostro, beq_iff_eq, platform, Option.bind_eq_some_iff] at h
  obtain ⟨values, hy, hhead⟩ := h
  obtain ⟨rest, rfl⟩ := List.head?_eq_some_iff.mp hhead
  rw [yTag] at hy
  split at hy
  next found hread =>
    rw [repeatedTagValues_of_tagValues hread, hy]
    exact ⟨rest, rfl⟩
  next => cases hy

theorem asStr_of_fromWire {value : String} {network : Network}
    (h : Network.fromWire value = some network) : value = network.asStr := by
  unfold Network.fromWire at h
  split at h <;> cases h <;> rfl

/-- What an accepted event's network tags say. -/
theorem onNetwork_of_optionalNetwork {e : Event} {read : Option Network}
    (h : optionalNetwork (F := F) e = .ok read)
    (haccepts : ∀ network, read = some network → P.acceptsNetwork network = true) :
    OnNetwork P e := by
  obtain ⟨value, hvalue, hread⟩ := bind_eq_ok.mp h
  obtain ⟨found, hfound, hone⟩ := bind_eq_ok.mp hvalue
  intro values hmem
  rw [repeatedTagValues_of_tagValues hfound, Option.mem_toList] at hmem
  subst hmem
  rcases values with _ | ⟨text, _ | ⟨other, rest⟩⟩
  · exact .inl fun value hmem => nomatch hmem
  · by_cases hblank : isBlank text = true
    · refine .inl fun value hmem => ?_
      rw [List.mem_singleton.mp hmem]
      exact hblank
    · cases hone
      have hkept : (some text).filter (fun v => !isBlank v) = some text := by
        rw [Option.filter_some, if_pos (by simpa using hblank)]
      rw [hkept] at hread
      cases hwire : Network.fromWire text with
      | none => simp [hwire] at hread
      | some network =>
          simp only [hwire] at hread
          cases hread
          exact .inr ⟨network, by rw [asStr_of_fromWire hwire], haccepts network rfl⟩
  · simp at hone

theorem genuine_of_admission {e : Event} (h : admission X P e = none)
    (htagged : platformTagged.contains e.kind = true) : Genuine X P e := by
  have hverified := verify_of_admission h
  rw [admission, hverified, Bool.not_true, if_neg Bool.false_ne_true] at h
  split at h
  · cases h
  · rename_i hpublisher
    split at h
    · cases h
    · rename_i hplatform
      refine ⟨hverified, by simpa using hpublisher, platform_of_isMostro ?_⟩
      rw [htagged, Bool.true_and, Bool.not_eq_true', Bool.not_eq_false] at hplatform
      exact hplatform

theorem onNetwork_of_admission {e : Event} (h : admission X P e = none)
    (htagged : networkTagged.contains e.kind = true) : OnNetwork P e := by
  rw [admission, verify_of_admission h, Bool.not_true, if_neg Bool.false_ne_true] at h
  split at h
  · cases h
  · split at h
    · cases h
    · split at h
      next network hread =>
        refine onNetwork_of_optionalNetwork hread fun found hfound => ?_
        cases hfound
        by_contra hno
        rw [if_neg hno] at h
        cases h
      next hread => exact onNetwork_of_optionalNetwork hread fun found hfound => by cases hfound
      next => cases h

/-! ## Once proven, always proven -/

theorem not_isEmpty_rows {V : Type} {t : Table String V} {p : V → Bool} :
    (!(rows t p).isEmpty) = true ↔ ∃ (k : String) (v : V), t[k]? = some v ∧ p v = true := by
  rw [Bool.not_eq_true', ← Bool.not_eq_true, List.isEmpty_iff]
  constructor
  · intro h
    obtain ⟨v, hv⟩ := List.exists_mem_of_ne_nil _ h
    obtain ⟨⟨k, hk⟩, hp⟩ := mem_rows.mp hv
    exact ⟨k, v, hk, hp⟩
  · rintro ⟨k, v, hk, hp⟩ hnil
    have hmem : v ∈ rows t p := mem_rows.mpr ⟨⟨k, hk⟩, hp⟩
    rw [hnil] at hmem
    exact nomatch hmem

theorem isPlatformProven_iff {pubkey : String} :
    Instances.isPlatformProven pubkey db = true ↔ HasRow pubkey db := by
  simp only [Instances.isPlatformProven, Bool.or_eq_true, not_isEmpty_rows, beq_iff_eq,
    HasRow, or_assoc]

theorem hasRow_iff {pubkey : String} : HasRow pubkey db ↔ pubkey ∈ Sync.platformProven db := by
  rw [Sync.platformProven, List.mem_insertionSort, List.mem_dedup, List.mem_append,
    List.mem_append, List.mem_append, mem_distinct, mem_distinct, mem_distinct, mem_distinct,
    HasRow, or_assoc, or_assoc]

theorem believed_ingest {pubkey : String} {c : Call} (h : Believed P pubkey db) :
    Believed P pubkey (ingest X P c db).2 := by
  rcases h with hlisted | hrow
  · exact .inl hlisted
  · exact .inr (hasRow_iff.mpr (Sync.platformProven_ingest (hasRow_iff.mp hrow)))

theorem believed_congr {pubkey : String} (h : SameTables db' db) (hb : Believed P pubkey db) :
    Believed P pubkey db' := by
  rw [Believed, HasRow] at hb ⊢
  rw [h.orderVersions, h.devFees, h.disputeVersions, h.instanceInfo]
  exact hb

/-- An untagged event past `vouched_for` has a publisher to believe. -/
theorem believed_of_admitted {e : Event} (h : Admitted X P e db)
    (huntagged : untaggedKinds.contains e.kind = true) : Believed P e.pubkey db := by
  have hvouched := h.vouched
  rw [vouchedFor, huntagged, Bool.not_true, if_neg Bool.false_ne_true] at hvouched
  split at hvouched
  · rename_i hbelieved
    rw [Bool.or_eq_true, isPlatformProven_iff] at hbelieved
    exact hbelieved
  · cases hvouched

/-! ## The relays of a list -/

/-- A relay a list names is the list's, or was there before. -/
theorem advertise_cases {list : RelayList} {relays : Table String Relay} {url : String}
    {row : Relay} (h : (advertise list relays)[url]? = some row) :
    relays[url]? = some row ∨ row.source = .nip65 list.pubkey := by
  rw [advertise] at h
  generalize list.relays = urls at h
  induction urls generalizing relays with
  | nil => exact .inl h
  | cons u rest ih =>
      rcases ih h with hbefore | hnamed
      · rcases getElem?_insertIfNew_eq_some.mp hbefore with hold | ⟨-, -, rfl⟩
        · exact .inl hold
        · exact .inr rfl
      · exact .inr hnamed

/-- What one event adds to the relays, whoever replays it. -/
theorem replayRelays_cases {r : EventRecord} {relays : Table String Relay} {url : String}
    {row : Relay} (h : (replayRelays X relays r)[url]? = some row) :
    relays[url]? = some row
      ∨ r.rawJson.kind = relayListKind ∧ row.source = .nip65 r.rawJson.pubkey := by
  rw [replayRelays] at h
  split at h
  next list hparse =>
    obtain ⟨hkind, -, hpubkey⟩ := parseRelayList_origin
      (show parseRelayList X r.rawJson = .ok list by simpa using parse_cases hparse)
    rw [← hpubkey]
    exact (advertise_cases h).imp_right fun hsource => ⟨hkind, hsource⟩
  next => exact .inl h

theorem replayAll_cases {records : List EventRecord} {relays : Table String Relay}
    {url : String} {row : Relay}
    (h : (records.foldl (replayRelays X) relays)[url]? = some row) :
    relays[url]? = some row ∨ ∃ r ∈ records, r.rawJson.kind = relayListKind
      ∧ row.source = .nip65 r.rawJson.pubkey := by
  induction records generalizing relays with
  | nil => exact .inl h
  | cons r rest ih =>
      rcases ih h with hbefore | ⟨r', hmem, hfrom⟩
      · rcases replayRelays_cases hbefore with hold | hfrom
        · exact .inl hold
        · exact .inr ⟨r, List.mem_cons_self, hfrom⟩
      · exact .inr ⟨r', List.mem_cons_of_mem r hmem, hfrom⟩

/-- The relays after one call: the archive's own, or the event's. -/
theorem ingest_relays_cases {c : Call} {url : String} {row : Relay}
    (h : (ingest X P c db).2.relays[url]? = some row) :
    db.relays[url]? = some row
      ∨ (ingest X P c db).2.events[c.event.id]? = some c.record
        ∧ c.event.kind = relayListKind ∧ row.source = .nip65 c.event.pubkey := by
  obtain ⟨outcome, out, heq, hcases⟩ := ingest_cases X P c db
  rw [heq] at h ⊢
  cases hcases with
  | turnedAway _ => exact .inl h
  | unread _ _ => exact .inl h
  | redundant _ _ _ => exact .inl h
  | duplicate _ _ _ _ => exact .inl h
  | @stored parsed _ hp _ hk =>
      have hreplay := replay_relays (X := X) c.record
        { db with events := db.events.insertIfNew c.event.id c.record }
      have hraw : c.record.rawJson = c.event := rfl
      rw [Pipeline.replay, hraw, hp] at hreplay
      have hrow : (replayRelays X db.relays c.record)[url]? = some row := by
        rw [← hreplay]
        exact h
      refine (replayRelays_cases hrow).imp_right fun hfrom => ⟨?_, hfrom⟩
      show (persist X c.event parsed _).events[c.event.id]? = some c.record
      rw [(persisted hp _).events]
      exact archived_lookup c hk

/-! ## The invariant, step by step -/

theorem guarded_empty : Guarded X P (Db.empty : Db F) where
  settled := settled_empty
  admitted := fun _ _ h => nomatch h
  believed := fun _ _ h => nomatch h
  named := fun _ _ _ h => nomatch h

/-- **STEP**: whatever becomes of a call. -/
theorem guarded_ingest {c : Call} (h : Guarded X P db) : Guarded X P (ingest X P c db).2 where
  settled := ingest_settled c h.settled
  admitted := by
    intro k r hk
    rcases ingest_events_cases hk with hold | ⟨harchives, -, rfl⟩
    · exact h.admitted k r hold
    · exact admission_of_archives harchives
  believed := by
    intro k r hk huntagged
    rcases ingest_events_cases hk with hold | ⟨harchives, -, rfl⟩
    · exact believed_ingest (h.believed k r hold huntagged)
    · have hkept := harchives
      rw [archives, kept, Bool.and_eq_true, Bool.and_eq_true] at hkept
      exact believed_ingest (believed_of_admitted
        ⟨admission_of_archives harchives, Option.isNone_iff_eq_none.mp hkept.2.1⟩ huntagged)
  named := by
    intro url row pubkey hrow hsource
    rcases ingest_relays_cases hrow with hold | ⟨harchived, hkind, hnamed⟩
    · obtain ⟨k, r, hk, hkind, hpubkey⟩ := h.named url row pubkey hold hsource
      exact ⟨k, r, ingest_events_mono P c hk, hkind, hpubkey⟩
    · rw [hsource] at hnamed
      cases hnamed
      exact ⟨c.event.id, c.record, harchived, hkind, rfl⟩

/-- **STEP**: a rebuild admits nothing and forgets nothing. -/
theorem guarded_rebuild (fromRaw : Bool) (h : Guarded X P db) :
    Guarded X P (rebuild X fromRaw db).2 where
  settled := rebuild_settled fromRaw h.settled
  admitted := by
    intro k r hk
    rw [rebuild_events] at hk
    exact h.admitted k r hk
  believed := by
    intro k r hk huntagged
    rw [rebuild_events] at hk
    exact believed_congr (rebuild_sameTables fromRaw h.settled) (h.believed k r hk huntagged)
  named := by
    intro url row pubkey hrow hsource
    rw [rebuild_relays] at hrow
    rw [rebuild_events]
    rcases replayAll_cases hrow with hold | ⟨r, hmem, hkind, hnamed⟩
    · exact h.named url row pubkey hold hsource
    · obtain ⟨⟨k, hk⟩, -⟩ := mem_rowsBy.mp hmem
      rw [hsource] at hnamed
      cases hnamed
      exact ⟨k, r, hk, hkind, rfl⟩

theorem guarded_run (operation : Operation) (h : Guarded X P db) :
    Guarded X P (operation.run X P db) := by
  cases operation with
  | ingest call => exact guarded_ingest h
  | rebuild fromRaw => exact guarded_rebuild fromRaw h

/-- **RUN**: the invariant holds after any operations. -/
theorem guarded_runAll (operations : List Operation) (h : Guarded X P db) :
    Guarded X P (runAll X P operations db) := by
  induction operations generalizing db with
  | nil => exact h
  | cons operation rest ih =>
      rw [runAll, List.foldl_cons]
      exact ih (guarded_run operation h)

/-! ## The result -/

/-- A guarded database is sound: each row is read off an event that was let in. -/
theorem Guarded.sound (h : Guarded X P db) : Sound X P db where
  orderVersions := by
    intro k row hk
    obtain ⟨r, hr, hread⟩ := h.settled.tables.orderVersions.sound k row hk
    obtain ⟨v, hp, -⟩ := readOrder_eq_some.mp hread
    have hkind := (parseOrder_origin (parse_order hp)).1
    have hadm := h.admitted k r hr
    exact ⟨r, hr, hread, genuine_of_admission hadm (by rw [hkind]; decide),
      onNetwork_of_admission hadm (by rw [hkind]; decide)⟩
  devFees := by
    intro k row hk
    have hview : (unflagged db.devFees)[k]? = some { row with isDuplicate := false } := by
      rw [unflagged, Std.ExtTreeMap.getElem?_map, hk]
      rfl
    obtain ⟨r, hr, hread⟩ := h.settled.tables.devFees.sound k _ hview
    obtain ⟨v, hp, -⟩ := readFee_eq_some.mp hread
    have hkind := (parseDevFee_origin (parse_devFee hp)).1
    have hadm := h.admitted k r hr
    exact ⟨r, hr, hread, genuine_of_admission hadm (by rw [hkind]; decide),
      onNetwork_of_admission hadm (by rw [hkind]; decide)⟩
  disputeVersions := by
    intro k row hk
    obtain ⟨r, hr, hread⟩ := h.settled.tables.disputeVersions.sound k row hk
    obtain ⟨v, hp, -⟩ := readDispute_eq_some.mp hread
    have hkind := (parseDispute_origin (parse_dispute hp)).1
    exact ⟨r, hr, hread, genuine_of_admission (h.admitted k r hr) (by rw [hkind]; decide)⟩
  instanceInfo := by
    intro k row hk
    obtain ⟨r, hr, hread⟩ := h.settled.tables.instanceInfo.sound k row hk
    obtain ⟨v, hp, -⟩ := readInfo_eq_some.mp hread
    have hkind := (parseInfo_origin (parse_info hp)).1
    exact ⟨r, hr, hread, genuine_of_admission (h.admitted k r hr) (by rw [hkind]; decide)⟩
  rates := by
    intro k row hk
    obtain ⟨r, hr, hread⟩ := h.settled.tables.rates.sound k row hk
    obtain ⟨hkind, -, hpubkey⟩ := parseRates_origin (parse_rates (readRates_eq_some.mp hread))
    rw [hpubkey]
    exact h.believed k r hr (by rw [hkind]; decide)
  relays := by
    intro url row pubkey hrow hsource
    obtain ⟨k, r, hk, hkind, rfl⟩ := h.named url row pubkey hrow hsource
    exact h.believed k r hk (by rw [hkind]; decide)

/-- **ADMISSION IS SOUND**: after any calls and any rebuilds, in any order, no row is
    there that an admitted event of the archive did not put there, and no publisher
    of rates or relays that the policy does not list is without a tagged row. -/
theorem admission_sound (X : Externals F) (P : Policy) (operations : List Operation) :
    Sound X P (runAll X P operations (Db.empty : Db F)) :=
  (guarded_runAll operations guarded_empty).sound

end Admission
