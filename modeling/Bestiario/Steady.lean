import Bestiario.Bestiary

/-! # A steady set leaves one bestiary

    `Told` says of a database what it was told: its archive is of the set, its
    rows are of publishers known, between the oldest and the newest event read,
    and each lasting event received is in the archive, itself or as one of its
    name and second.  Every call keeps it (`told_ingest`).

    Once the whole set is received, what `Steady` asks for closes the gap between
    the archive and the set, and each row is a function of the set
    (`portrait_of_told`). -/

namespace Bestiary

open Keyed Wire Parse Repo Pipeline Derived

variable {F : Type} {X : Externals F} {P : Policy} {S : Finset Event} {db : Db F}

/-! ## Vouching -/

theorem vouchedFor_of_sure {e : Event} (h : Sure P e) (db : Db F) :
    vouchedFor P e db = none := by
  rw [vouchedFor]
  rcases h with htagged | hlisted
  · rw [htagged, Bool.not_false, if_pos rfl]
  · by_cases huntagged : (!untaggedKinds.contains e.kind) = true
    · rw [if_pos huntagged]
    · rw [if_neg huntagged, hlisted, Bool.true_or, if_pos rfl]

/-- A readable event of a kind that carries `y` reads as a row of its table. -/
theorem hasRow_of_archived (h : Settled X db) {pubkey : String} {e : Event}
    (he : e ∈ voices X (archive db) pubkey) (htagged : untaggedKinds.contains e.kind = false) :
    Admission.HasRow pubkey db := by
  obtain ⟨⟨k, r, hk, rfl⟩, hpubkey, parsed, hp⟩ := he
  rcases parse_cases hp with ⟨v, rfl, -⟩ | ⟨v, rfl, -⟩ | ⟨v, rfl, -⟩ | ⟨v, rfl, -⟩ |
    ⟨v, rfl, hv⟩ | ⟨v, rfl, hv⟩
  · have hread := readOrder_eq_some.mpr ⟨v, hp, rfl⟩
    exact .inl ⟨k, _, h.tables.orderVersions.complete k r _ hk hread id,
      (readOrder_origin hread).2.1.trans hpubkey⟩
  · have hread := readFee_eq_some.mpr ⟨v, hp, rfl⟩
    have hrow := h.tables.devFees.complete k r _ hk hread id
    rw [unflagged, Std.ExtTreeMap.getElem?_map, Option.map_eq_some_iff] at hrow
    obtain ⟨row, hrow, heq⟩ := hrow
    refine .inr (.inl ⟨k, row, hrow, ?_⟩)
    exact (congrArg FeeRow.pubkey heq).trans ((readFee_origin hread).2.1.trans hpubkey)
  · have hread := readDispute_eq_some.mpr ⟨v, hp, rfl⟩
    exact .inr (.inr (.inl ⟨k, _, h.tables.disputeVersions.complete k r _ hk hread id,
      (readDispute_origin hread).2.1.trans hpubkey⟩))
  · have hread := readInfo_eq_some.mpr ⟨v, hp, rfl⟩
    exact .inr (.inr (.inr ⟨k, _, h.tables.instanceInfo.complete k r _ hk hread id,
      (readInfo_origin hread).2.1.trans hpubkey⟩))
  · rw [(parseRates_origin hv).1] at htagged
    exact absurd htagged (by decide)
  · rw [(parseRelayList_origin hv).1] at htagged
    exact absurd htagged (by decide)

/-- And such a row was read off such an event. -/
theorem archived_of_hasRow (h : Settled X db) {pubkey : String}
    (hrow : Admission.HasRow pubkey db) :
    ∃ e ∈ voices X (archive db) pubkey, untaggedKinds.contains e.kind = false := by
  rcases hrow with ⟨k, row, hk, rfl⟩ | ⟨k, row, hk, rfl⟩ | ⟨k, row, hk, rfl⟩ | ⟨k, row, hk, rfl⟩
  · obtain ⟨r, hr, hread⟩ := h.tables.orderVersions.sound k row hk
    obtain ⟨v, hp, -⟩ := readOrder_eq_some.mp hread
    refine ⟨r.rawJson, ⟨⟨k, r, hr, rfl⟩, (readOrder_origin hread).2.1.symm, _, hp⟩, ?_⟩
    rw [(parseOrder_origin (parse_order hp)).1]
    decide
  · have hview : (unflagged db.devFees)[k]? = some { row with isDuplicate := false } := by
      rw [unflagged, Std.ExtTreeMap.getElem?_map, hk]
      rfl
    obtain ⟨r, hr, hread⟩ := h.tables.devFees.sound k _ hview
    obtain ⟨v, hp, -⟩ := readFee_eq_some.mp hread
    refine ⟨r.rawJson, ⟨⟨k, r, hr, rfl⟩, (readFee_origin hread).2.1.symm, _, hp⟩, ?_⟩
    rw [(parseDevFee_origin (parse_devFee hp)).1]
    decide
  · obtain ⟨r, hr, hread⟩ := h.tables.disputeVersions.sound k row hk
    obtain ⟨v, hp, -⟩ := readDispute_eq_some.mp hread
    refine ⟨r.rawJson, ⟨⟨k, r, hr, rfl⟩, (readDispute_origin hread).2.1.symm, _, hp⟩, ?_⟩
    rw [(parseDispute_origin (parse_dispute hp)).1]
    decide
  · obtain ⟨r, hr, hread⟩ := h.tables.instanceInfo.sound k row hk
    obtain ⟨v, hp, -⟩ := readInfo_eq_some.mp hread
    refine ⟨r.rawJson, ⟨⟨k, r, hr, rfl⟩, (readInfo_origin hread).2.1.symm, _, hp⟩, ?_⟩
    rw [(parseInfo_origin (parse_info hp)).1]
    decide

/-- Whoever is let in without being sure has such an event archived. -/
theorem archived_of_admitted (h : Settled X db) {e : Event} (hadmitted : Admitted X P e db)
    (hsure : ¬ Sure P e) :
    ∃ f ∈ voices X (archive db) e.pubkey, untaggedKinds.contains f.kind = false := by
  rw [Sure, not_or, Bool.not_eq_false, Bool.not_eq_true] at hsure
  rcases Admission.believed_of_admitted hadmitted hsure.1 with hlisted | hrow
  · exact absurd hlisted (by rw [hsure.2]; exact Bool.false_ne_true)
  · exact archived_of_hasRow h hrow

/-! ## Repeats -/

theorem Repeats.values {f e : Event} (h : Repeats f e) (name : String) :
    tagValues (F := Unit) f name = tagValues e name :=
  Retention.tagValues_of_perm (Retention.perm_of_sameTags h.tags) name

theorem Repeats.name {f e : Event} (h : Repeats f e) : instanceName f = instanceName e := by
  rw [instanceName, instanceName, yTag, yTag, h.values]

theorem Repeats.dTag {f e : Event} (h : Repeats f e) : Wire.dTag f = Wire.dTag e := by
  rw [Wire.dTag, Wire.dTag, h.values]

/-- An announcement parses if what it repeats does. -/
theorem Repeats.readable {f e : Event} (h : Repeats f e) (hkind : e.kind ∈ announcing)
    (he : ∃ parsed, parse X e = .ok parsed) : ∃ parsed, parse X f = .ok parsed := by
  obtain ⟨parsed, hp⟩ := he
  rcases List.mem_pair.mp hkind with hinfo | hlist
  · rw [parse, hinfo] at hp
    obtain ⟨info, hread, -⟩ := malformed_eq_ok hp
    have hf := Retention.parseInfo_of_sameTags h.kind h.pubkey h.tags hread
    refine ⟨.info { info with eventId := f.id, createdAt := f.at }, ?_⟩
    rw [parse, h.kind, hinfo, hf]
    rfl
  · refine ⟨.relayList ⟨f.id, f.pubkey, f.at, (repeatedTagValues f "r").foldl (addRelay X) []⟩, ?_⟩
    have hf : parseRelayList X f = .ok ⟨f.id, f.pubkey, f.at,
        (repeatedTagValues f "r").foldl (addRelay X) []⟩ := by
      rw [parseRelayList, expectKind, if_pos (h.kind.trans hlist)]
      rfl
    rw [parse, h.kind, hlist, hf]
    rfl

theorem heartbeat_of_parsed {e : Event} {parsed : Parsed F} (hp : parse X e = .ok parsed) :
    parsedHeartbeat parsed = .none ∧ e.kind ∉ announcing ∧ e.kind ≠ ratesKind
      ∨ parsedHeartbeat parsed = .announcement ∧ e.kind ∈ announcing
      ∨ ∃ s, readRates X e = some s ∧ parsedHeartbeat parsed = .rates s.publishedAt := by
  rcases parse_cases hp with ⟨v, rfl, hv⟩ | ⟨v, rfl, hv⟩ | ⟨v, rfl, hv⟩ | ⟨v, rfl, hv⟩ |
    ⟨v, rfl, hv⟩ | ⟨v, rfl, hv⟩
  · refine .inl ⟨rfl, ?_⟩
    rw [(parseOrder_origin hv).1]
    decide
  · refine .inl ⟨rfl, ?_⟩
    rw [(parseDevFee_origin hv).1]
    decide
  · refine .inl ⟨rfl, ?_⟩
    rw [(parseDispute_origin hv).1]
    decide
  · refine .inr (.inl ⟨rfl, ?_⟩)
    rw [(parseInfo_origin hv).1]
    decide
  · exact .inr (.inr ⟨v, readRates_eq_some.mpr hp, rfl⟩)
  · refine .inr (.inl ⟨rfl, ?_⟩)
    rw [(parseRelayList_origin hv).1]
    decide

/-- **WHAT MAKES AN EVENT REDUNDANT**: an archived version it repeats, or an
    archived snapshot of its hour. -/
theorem redundant_cases (h : Settled X db) {e : Event} {parsed : Parsed F}
    (hp : parse X e = .ok parsed)
    (hr : Heartbeats.isRedundant e (parsedHeartbeat parsed) db = true) :
    (e.kind ∈ announcing ∧ ∃ f ∈ archive db, Repeats f e ∧ f.at ≤ e.at)
      ∨ ∃ s, readRates X e = some s ∧ ∃ f ∈ archive db, ∃ r, readRates X f = some r
        ∧ Thinning.SameHour r s := by
  rcases heartbeat_of_parsed hp with ⟨hbeat, -⟩ | ⟨hbeat, hkind⟩ | ⟨s, hs, hbeat⟩
  · rw [hbeat] at hr
    cases hr
  · left
    refine ⟨hkind, ?_⟩
    rw [hbeat, Heartbeats.isRedundant] at hr
    split at hr
    next record hprevious =>
      obtain ⟨⟨k, hk⟩, hsel⟩ := first_mem hprevious
      simp only [Bool.and_eq_true, beq_iff_eq, decide_eq_true_iff] at hsel hr
      obtain ⟨-, hnew⟩ := h.tables.keyed k record hk
      rw [hnew] at hsel
      obtain ⟨⟨⟨⟨hpub, hkind'⟩, -⟩, hat⟩, -⟩ := hsel
      exact ⟨record.rawJson, ⟨k, record, hk, rfl⟩, ⟨hpub, hkind', hr.1, hr.2⟩, hat⟩
    next => cases hr
  · right
    refine ⟨s, hs, ?_⟩
    obtain ⟨hid, hpubkey⟩ := readRates_origin hs
    rw [hbeat, Heartbeats.isRedundant, Bool.not_eq_true', List.isEmpty_eq_false_iff_exists_mem]
      at hr
    obtain ⟨row, hrow⟩ := hr
    obtain ⟨⟨k, hk⟩, hsel⟩ := mem_rows.mp hrow
    simp only [Bool.and_eq_true, beq_iff_eq, decide_eq_true_iff, bne_iff_ne] at hsel
    obtain ⟨⟨⟨hpub, hlo⟩, hhi⟩, hne⟩ := hsel
    obtain ⟨r, hr, hread⟩ := h.tables.rates.sound k row hk
    exact ⟨r.rawJson, ⟨k, r, hr, rfl⟩, row, hread, hpub.trans hpubkey.symm, hlo, hhi, hid ▸ hne⟩

/-- A snapshot of the hour in the archive is enough. -/
theorem redundant_of_sameHour (h : Settled X db) {e f : Event} {parsed : Parsed F}
    (hp : parse X e = .ok parsed) {r s : RateSnapshot F} (hs : readRates X e = some s)
    (hf : f ∈ archive db) (hr : readRates X f = some r) (hsame : Thinning.SameHour r s) :
    Heartbeats.isRedundant e (parsedHeartbeat parsed) db = true := by
  obtain ⟨k, record, hk, rfl⟩ := hf
  have hrow := h.tables.rates.complete k record r hk hr id
  cases hp.symm.trans (readRates_eq_some.mp hs)
  obtain ⟨hid, hpubkey⟩ := readRates_origin hs
  obtain ⟨hpub, hlo, hhi, hne⟩ := hsame
  rw [parsedHeartbeat, Heartbeats.isRedundant, Bool.not_eq_true',
    List.isEmpty_eq_false_iff_exists_mem]
  refine ⟨r, mem_rows.mpr ⟨⟨k, hrow⟩, ?_⟩⟩
  simp only [Bool.and_eq_true, beq_iff_eq, decide_eq_true_iff, bne_iff_ne]
  exact ⟨⟨⟨hpub.trans hpubkey, hlo⟩, hhi⟩, hid ▸ hne⟩

/-! ## What a database was told -/

/-- Two admitted events with one id say the same. -/
theorem same_of_id {e f : Event} (he : admission X P e = none) (hf : admission X P f = none)
    (hid : f.id = e.id) :
    f.pubkey = e.pubkey ∧ f.kind = e.kind ∧ f.at = e.at ∧ instanceName f = instanceName e
      ∧ parse X f = parse X e := by
  have hverified := verify_of_admission hf
  have hverified' := verify_of_admission he
  have hbody := X.verify_body f e hverified hverified' hid
  simp only [Event.body, Prod.mk.injEq] at hbody
  obtain ⟨hpubkey, hat, hkind, htags, -⟩ := hbody
  refine ⟨hpubkey, hkind, ?_, ?_, parse_eq_of_id hverified hverified' hid⟩
  · rw [Event.at, Event.at, hat]
  · rw [instanceName, instanceName, yTag, yTag, tagValues, tagValues, repeatedTagValues,
      repeatedTagValues, htags]

/-- **THE INVARIANT**: the archive is of the set, the rows are of its publishers, and
    what was received and is lasting is archived. -/
structure Told (X : Externals F) (P : Policy) (S : Finset Event) (done : Event → Prop)
    (db : Db F) : Prop where
  settled : Settled X db
  stored : ∀ e ∈ archive db, e ∈ S
  drawn : ∀ (pubkey : String) row, db.instances[pubkey]? = some row →
    row.pubkey = pubkey ∧ Known X P S pubkey
      ∧ (∃ e ∈ voices X S pubkey, e.at = row.firstSeenAt)
      ∧ ∃ e ∈ voices X S pubkey, e.at = row.lastSeenAt
  framed : ∀ pubkey, ∀ e ∈ voices X S pubkey, done e ∧ Sure P e ∨ e ∈ archive db →
    ∃ row, db.instances[pubkey]? = some row ∧ row.firstSeenAt ≤ e.at ∧ e.at ≤ row.lastSeenAt
  lasting : ∀ pubkey, ∀ e ∈ voices X S pubkey, done e → Lasting X P S e →
    ∃ f ∈ voices X (archive db) pubkey, instanceName f = instanceName e ∧ f.at = e.at

theorem told_empty : Told X P S (fun _ => False) (Db.empty : Db F) where
  settled := settled_empty
  stored := fun _ ⟨_, _, h, _⟩ => nomatch h
  drawn := fun _ _ h => nomatch h
  framed := by
    rintro _ _ _ (⟨h, -⟩ | ⟨_, _, h, -⟩)
    · exact h.elim
    · exact nomatch h
  lasting := fun _ _ _ h _ => h.elim

theorem archive_mono (P : Policy) (c : Call) {e : Event} (h : e ∈ archive db) :
    e ∈ archive (ingest X P c db).2 := by
  obtain ⟨k, r, hk, rfl⟩ := h
  exact ⟨k, r, ingest_events_mono P c hk, rfl⟩

theorem archive_cases {c : Call} {e : Event} (h : e ∈ archive (ingest X P c db).2) :
    e ∈ archive db ∨ e = c.event := by
  obtain ⟨k, r, hk, rfl⟩ := h
  rcases ingest_events_cases hk with hold | ⟨-, -, rfl⟩
  · exact .inl ⟨k, r, hold, rfl⟩
  · exact .inr rfl

theorem voices_mono {A B : Set Event} (h : ∀ e ∈ A, e ∈ B) {pubkey : String} {e : Event}
    (he : e ∈ voices X A pubkey) : e ∈ voices X B pubkey :=
  ⟨h e he.1, he.2⟩

/-- The bestiary after a call: the event's publisher has given a sign of life, or
    the event was there already, or it left no trace. -/
theorem instances_ingest (c : Call) (db : Db F) :
    (∃ name, Admitted X P c.event db ∧ (∃ parsed, parse X c.event = .ok parsed)
        ∧ (ingest X P c db).2.instances
          = (Instances.upsert c.event.pubkey name c.event.at db).instances)
      ∨ (ingest X P c db).2.instances = db.instances
        ∧ ((∃ r, db.events[c.event.id]? = some r) ∨ ¬ Admitted X P c.event db
          ∨ ¬ ∃ parsed, parse X c.event = .ok parsed) := by
  obtain ⟨outcome, out, heq, hcases⟩ := ingest_cases X P c db
  rw [heq]
  cases hcases with
  | turnedAway hno => exact .inr ⟨rfl, .inr (.inl hno)⟩
  | unread _ hp =>
      exact .inr ⟨rfl, .inr (.inr fun ⟨_, hok⟩ => nomatch hp.symm.trans hok)⟩
  | duplicate _ _ _ hk => exact .inr ⟨rfl, .inl ⟨_, hk⟩⟩
  | redundant hadmitted hp _ => exact .inl ⟨none, hadmitted, ⟨_, hp⟩, rfl⟩
  | @stored parsed hadmitted hp _ hk =>
      refine .inl ⟨instanceName c.event, hadmitted, ⟨_, hp⟩, ?_⟩
      show (persist X c.event parsed _).instances = _
      rw [(Rebuild.persist_bestiary c.event parsed _).1, Pipeline.sighted]
      cases instanceName c.event with
      | none => rfl
      | some name => rfl

section Step

variable {done : Event → Prop} {c : Call} (hadm : ∀ e ∈ S, admission X P e = none)
  (hmem : c.event ∈ S)

include hmem

theorem stored_ingest (h : Told X P S done db) : ∀ e ∈ archive (ingest X P c db).2, e ∈ S := by
  intro e he
  rcases archive_cases he with hold | rfl
  · exact h.stored e hold
  · exact hmem

/-- A publisher let in is known. -/
theorem known_of_admitted (h : Told X P S done db) (hadmitted : Admitted X P c.event db)
    (hread : ∃ parsed, parse X c.event = .ok parsed) : Known X P S c.event.pubkey := by
  by_cases hsure : Sure P c.event
  · exact ⟨c.event, ⟨hmem, rfl, hread⟩, hsure⟩
  · obtain ⟨f, hf, htagged⟩ := archived_of_admitted h.settled hadmitted hsure
    exact ⟨f, voices_mono h.stored hf, .inl htagged⟩

theorem drawn_ingest (h : Told X P S done db) (pubkey : String) (row : Instance)
    (hrow : (ingest X P c db).2.instances[pubkey]? = some row) :
    row.pubkey = pubkey ∧ Known X P S pubkey
      ∧ (∃ e ∈ voices X S pubkey, e.at = row.firstSeenAt)
      ∧ ∃ e ∈ voices X S pubkey, e.at = row.lastSeenAt := by
  rcases instances_ingest (X := X) (P := P) c db with ⟨name, hadmitted, hread, heq⟩ | ⟨heq, -⟩
  · rw [heq, getElem?_upsert] at hrow
    by_cases hours : c.event.pubkey = pubkey
    · subst hours
      rw [if_pos rfl] at hrow
      cases hrow
      have hvoice : c.event ∈ voices X S c.event.pubkey := ⟨hmem, rfl, hread⟩
      rw [entry_firstSeenAt, entry_lastSeenAt]
      refine ⟨entry_pubkey _ _ _ _ fun old hold => (h.drawn _ old hold).1,
        known_of_admitted hmem h hadmitted hread, ?_, ?_⟩
      · cases hold : db.instances[c.event.pubkey]? with
        | none => exact ⟨c.event, hvoice, rfl⟩
        | some old =>
            obtain ⟨-, -, ⟨f, hf, hat⟩, -⟩ := h.drawn _ old hold
            rcases min_choice old.firstSeenAt c.event.at with hmin | hmin
            · exact ⟨f, hf, hat.trans hmin.symm⟩
            · exact ⟨c.event, hvoice, hmin.symm⟩
      · cases hold : db.instances[c.event.pubkey]? with
        | none => exact ⟨c.event, hvoice, rfl⟩
        | some old =>
            obtain ⟨-, -, -, ⟨f, hf, hat⟩⟩ := h.drawn _ old hold
            rcases max_choice old.lastSeenAt c.event.at with hmax | hmax
            · exact ⟨f, hf, hat.trans hmax.symm⟩
            · exact ⟨c.event, hvoice, hmax.symm⟩
    · rw [if_neg hours] at hrow
      exact h.drawn pubkey row hrow
  · rw [heq] at hrow
    exact h.drawn pubkey row hrow

omit hmem in
/-- A row once there only widens. -/
theorem row_ingest {pubkey : String} {row : Instance} (hrow : db.instances[pubkey]? = some row) :
    ∃ row', (ingest X P c db).2.instances[pubkey]? = some row'
      ∧ row'.firstSeenAt ≤ row.firstSeenAt ∧ row.lastSeenAt ≤ row'.lastSeenAt := by
  rcases instances_ingest (X := X) (P := P) c db with ⟨name, -, -, heq⟩ | ⟨heq, -⟩
  · rw [heq, getElem?_upsert]
    by_cases hours : c.event.pubkey = pubkey
    · subst hours
      rw [if_pos rfl, hrow]
      refine ⟨_, rfl, ?_, ?_⟩
      · rw [entry_firstSeenAt]
        exact min_le_left _ _
      · rw [entry_lastSeenAt]
        exact le_max_left _ _
    · rw [if_neg hours]
      exact ⟨row, hrow, le_refl _, le_refl _⟩
  · rw [heq]
    exact ⟨row, hrow, le_refl _, le_refl _⟩

include hadm

/-- An event taken stands inside its publisher's row. -/
theorem framed_ingest (h : Told X P S done db)
    (hread : ∃ parsed, parse X c.event = .ok parsed) (hadmitted : Admitted X P c.event db) :
    ∃ row, (ingest X P c db).2.instances[c.event.pubkey]? = some row
      ∧ row.firstSeenAt ≤ c.event.at ∧ c.event.at ≤ row.lastSeenAt := by
  rcases instances_ingest (X := X) (P := P) c db with ⟨name, -, -, heq⟩ |
    ⟨-, ⟨r, hk⟩ | hno | hno⟩
  · rw [heq, getElem?_upsert, if_pos rfl]
    refine ⟨_, rfl, ?_, ?_⟩
    · rw [entry_firstSeenAt]
      cases db.instances[c.event.pubkey]? with
      | none => exact le_refl _
      | some old => exact min_le_right _ _
    · rw [entry_lastSeenAt]
      cases db.instances[c.event.pubkey]? with
      | none => exact le_refl _
      | some old => exact le_max_right _ _
  · -- Archived already, under the same id: the same publisher and second.
    have harchived : r.rawJson ∈ archive db := ⟨_, r, hk, rfl⟩
    have hin := h.stored _ harchived
    obtain ⟨hpubkey, -, hat, -, hparse⟩ := same_of_id (hadm _ hmem) (hadm _ hin)
      (h.settled.tables.rawJson_id hk)
    obtain ⟨row, hrow, hlo, hhi⟩ := h.framed c.event.pubkey r.rawJson
      ⟨hin, hpubkey, hparse ▸ hread⟩ (.inr harchived)
    obtain ⟨row', hrow', hfirst, hlast⟩ := row_ingest (X := X) (P := P) (c := c) hrow
    rw [hat] at hlo hhi
    exact ⟨row', hrow', hfirst.trans hlo, hhi.trans hlast⟩
  · exact absurd hadmitted hno
  · exact absurd hread hno

/-- A lasting event received is archived, or one of its name and second is. -/
theorem lasting_ingest (h : Told X P S done db)
    (hread : ∃ parsed, parse X c.event = .ok parsed) (hlasting : Lasting X P S c.event) :
    ∃ f ∈ voices X (archive (ingest X P c db).2) c.event.pubkey,
      instanceName f = instanceName c.event ∧ f.at = c.event.at := by
  have hkeep : ∀ f ∈ voices X (archive db) c.event.pubkey,
      f ∈ voices X (archive (ingest X P c db).2) c.event.pubkey :=
    fun f hf => voices_mono (fun e he => archive_mono P c he) hf
  obtain ⟨outcome, out, heq, hcases⟩ := ingest_cases X P c db
  rw [heq] at hkeep ⊢
  cases hcases with
  | turnedAway hno =>
      exact absurd ⟨hadm _ hmem, vouchedFor_of_sure hlasting.sure db⟩ hno
  | unread _ hp =>
      obtain ⟨parsed, hok⟩ := hread
      exact nomatch hp.symm.trans hok
  | @duplicate _ r _ _ _ hk =>
      have harchived : r.rawJson ∈ archive db := ⟨_, r, hk, rfl⟩
      obtain ⟨hpubkey, -, hat, hname, hparse⟩ := same_of_id (hadm _ hmem)
        (hadm _ (h.stored _ harchived)) (h.settled.tables.rawJson_id hk)
      exact ⟨r.rawJson, hkeep _ ⟨harchived, hpubkey, hparse ▸ hread⟩, hname, hat⟩
  | redundant _ hp hr =>
      rcases redundant_cases h.settled hp hr with ⟨hkind, f, hf, hrepeats, hle⟩ |
        ⟨s, hs, f, hf, r, hfr, hsame⟩
      · refine ⟨f, hkeep f ⟨hf, hrepeats.pubkey, hrepeats.readable hkind hread⟩,
          hrepeats.name, ?_⟩
        exact le_antisymm hle (hlasting.announced hkind f (h.stored f hf) hrepeats)
      · obtain ⟨hname, hat⟩ := hlasting.priced s hs f (h.stored f hf) r hfr hsame
        refine ⟨f, hkeep f ⟨hf, ?_, _, readRates_eq_some.mp hfr⟩, hname, hat⟩
        rw [← (readRates_origin hfr).2, hsame.1, (readRates_origin hs).2]
  | @stored parsed _ hp _ hk =>
      refine ⟨c.event, ⟨⟨c.event.id, c.record, ?_, rfl⟩, rfl, hread⟩, rfl, rfl⟩
      show (persist X c.event parsed _).events[c.event.id]? = _
      rw [(persisted hp _).events]
      exact archived_lookup c hk

/-- **STEP**: a call of the set is told. -/
theorem told_ingest (h : Told X P S done db) :
    Told X P S (fun e => done e ∨ e = c.event) (ingest X P c db).2 where
  settled := ingest_settled c h.settled
  stored := stored_ingest hmem h
  drawn := drawn_ingest hmem h
  framed := by
    intro pubkey e he hwhen
    by_cases hbefore : done e ∧ Sure P e ∨ e ∈ archive db
    · obtain ⟨row, hrow, hlo, hhi⟩ := h.framed pubkey e he hbefore
      obtain ⟨row', hrow', hfirst, hlast⟩ := row_ingest (X := X) (P := P) (c := c) hrow
      exact ⟨row', hrow', hfirst.trans hlo, hhi.trans hlast⟩
    · have hnow : e = c.event ∧ Admitted X P e db := by
        rcases hwhen with ⟨hdone | rfl, hsure⟩ | ⟨k, r, hk, rfl⟩
        · exact absurd (.inl ⟨hdone, hsure⟩) hbefore
        · exact ⟨rfl, hadm _ hmem, vouchedFor_of_sure hsure db⟩
        · rcases ingest_events_cases hk with hold | ⟨harchives, -, rfl⟩
          · exact absurd (.inr ⟨k, r, hold, rfl⟩) hbefore
          · rw [archives, kept, Bool.and_eq_true, Bool.and_eq_true] at harchives
            exact ⟨rfl, hadm _ hmem, Option.isNone_iff_eq_none.mp harchives.2.1⟩
      obtain ⟨rfl, hadmitted⟩ := hnow
      obtain ⟨-, rfl, hread⟩ := he
      exact framed_ingest hadm hmem h hread hadmitted
  lasting := by
    rintro pubkey e he (hdone | rfl) hlasting
    · obtain ⟨f, hf, hsame⟩ := h.lasting pubkey e he hdone hlasting
      exact ⟨f, voices_mono (fun e he => archive_mono P c he) hf, hsame⟩
    · obtain ⟨-, rfl, hread⟩ := he
      exact lasting_ingest hadm hmem h hread hlasting

end Step

/-- **RUN**: calls of the set are told, one after another. -/
theorem told_ingestAll (hadm : ∀ e ∈ S, admission X P e = none) {done : Event → Prop}
    {calls : List Call} (hmem : ∀ c ∈ calls, c.event ∈ S) (h : Told X P S done db) :
    Told X P S (fun e => done e ∨ ∃ c ∈ calls, c.event = e) (ingestAll X P calls db) := by
  induction calls generalizing done db with
  | nil =>
      have hsame : (fun e => done e ∨ ∃ c ∈ ([] : List Call), c.event = e) = done := by
        funext e
        simp
      rw [hsame]
      exact h
  | cons c rest ih =>
      have hstep := ih (fun d hd => hmem d (List.mem_cons_of_mem c hd))
        (told_ingest hadm (hmem c List.mem_cons_self) h)
      have hsame : (fun e => done e ∨ ∃ d ∈ c :: rest, d.event = e)
          = fun e => (done e ∨ e = c.event) ∨ ∃ d ∈ rest, d.event = e := by
        funext e
        simp only [List.mem_cons, exists_eq_or_imp, or_assoc, eq_comm (a := e)]
      rw [hsame]
      exact hstep

theorem labels_ingestAll {calls : List Call} (h : Labels (legible X db) db) :
    Labels (legible X (ingestAll X P calls db)) (ingestAll X P calls db) := by
  induction calls generalizing db with
  | nil => exact h
  | cons c rest ih => exact ih (labels_ingest h)

/-! ## What the set says of a publisher -/

/-- The row a set of events gives its publisher, whatever the order. -/
structure Portrait (X : Externals F) (S : Finset Event) (publisher : String)
    (row : Instance) : Prop where
  pubkey : row.pubkey = publisher
  first : IsLeast (Event.at '' voices X S publisher) row.firstSeenAt
  last : IsGreatest (Event.at '' voices X S publisher) row.lastSeenAt
  seen : ∀ stamp, row.nameSeenAt = some stamp
    ↔ IsGreatest (Event.at '' naming (voices X S publisher)) stamp
  name : ∀ label, row.name = some label
    ↔ ∃ e, Newest (naming (voices X S publisher)) e ∧ instanceName e = some label

/-- A set gives a publisher one row. -/
theorem Portrait.unique {pubkey : String} {row row' : Instance}
    (h : Portrait X S pubkey row) (h' : Portrait X S pubkey row') : row = row' := by
  have hpubkey := h.pubkey.trans h'.pubkey.symm
  have hfirst := h.first.unique h'.first
  have hlast := h.last.unique h'.last
  have hseen : row.nameSeenAt = row'.nameSeenAt :=
    Option.ext fun stamp => (h.seen stamp).trans (h'.seen stamp).symm
  have hname : row.name = row'.name :=
    Option.ext fun label => (h.name label).trans (h'.name label).symm
  obtain ⟨pubkey, name, nameSeenAt, firstSeenAt, lastSeenAt⟩ := row
  obtain ⟨pubkey', name', nameSeenAt', firstSeenAt', lastSeenAt'⟩ := row'
  dsimp only at hpubkey hfirst hlast hseen hname
  rw [hpubkey, hfirst, hlast, hseen, hname]

theorem newest_iff {A : Set Event} {e : Event} :
    Newest A e ↔ e ∈ A ∧ IsGreatest (Event.at '' A) e.at := by
  constructor
  · rintro ⟨he, hle⟩
    refine ⟨he, ⟨e, he, rfl⟩, ?_⟩
    rintro _ ⟨f, hf, rfl⟩
    exact hle f hf
  · rintro ⟨he, -, hle⟩
    exact ⟨he, fun f hf => hle ⟨f, hf, rfl⟩⟩

/-- Of a set that is not empty one event is newest. -/
theorem exists_newest {A : Set Event} (hA : ∀ e ∈ A, e ∈ S) (hne : ∃ e, e ∈ A) :
    ∃ e, Newest A e := by
  have hfin : A.Finite := S.finite_toSet.subset hA
  obtain ⟨e, he, hle⟩ := Set.exists_max_image A Event.at hfin hne
  exact ⟨e, he, hle⟩

section Final

variable {pubkey : String}
  (htold : Told X P S (fun e => e ∈ S) db) (hlabels : Labels (legible X db) db)

include htold

theorem voices_archive {e : Event} (he : e ∈ voices X (archive db) pubkey) :
    e ∈ voices X S pubkey :=
  voices_mono htold.stored he

/-- A publisher has a row exactly when it is known. -/
theorem known_iff_row : Known X P S pubkey ↔ ∃ row, db.instances[pubkey]? = some row := by
  constructor
  · rintro ⟨e, he, hsure⟩
    obtain ⟨row, hrow, -⟩ := htold.framed pubkey e he (.inl ⟨he.1, hsure⟩)
    exact ⟨row, hrow⟩
  · rintro ⟨row, hrow⟩
    exact (htold.drawn pubkey row hrow).2.1

/-- What a steady set keeps under a name is as new as the set has it. -/
theorem exists_archived (hsteady : Steady X P S pubkey) {e : Event}
    (he : e ∈ voices X S pubkey) {name : String} (hname : instanceName e = some name) :
    ∃ f ∈ voices X (archive db) pubkey, instanceName f = some name ∧ e.at ≤ f.at := by
  obtain ⟨f, ⟨hf, hfname⟩, hlasting, hle⟩ := hsteady.kept e he name hname
  obtain ⟨g, hg, hgname, hat⟩ := htold.lasting pubkey f hf hf.1 hlasting
  exact ⟨g, hg, hgname.trans hfname, hle.trans hat.ge⟩

include hlabels

/-- The names listed are those of the set, as of the newest to carry each. -/
theorem listed_iff (hsteady : Steady X P S pubkey) (name : String) (stamp : Int) :
    db.instanceNames[toLex (pubkey, name)]? = some stamp
      ↔ IsGreatest (Event.at '' calling (voices X S pubkey) name) stamp := by
  have hof : ∀ seen, db.instanceNames[toLex (pubkey, name)]? = some seen →
      IsGreatest (Event.at '' calling (voices X S pubkey) name) seen := by
    intro seen hrow
    obtain ⟨e, he, hp, hname, rfl⟩ := hlabels.listed pubkey name seen hrow
    refine ⟨⟨e, ⟨voices_archive htold (mem_voices_archive.mpr ⟨he, hp⟩), hname⟩, rfl⟩, ?_⟩
    rintro _ ⟨f, ⟨hf, hfname⟩, rfl⟩
    obtain ⟨g, hg, hgname, hle⟩ := exists_archived htold hsteady hf hfname
    obtain ⟨hlegible, hgp⟩ := mem_voices_archive.mp hg
    obtain ⟨seen, hseen, hgle⟩ := hlabels.known g hlegible name hgname
    rw [hgp, hrow] at hseen
    cases hseen
    exact hle.trans hgle
  constructor
  · exact hof stamp
  · intro hgreatest
    obtain ⟨e, ⟨he, hname⟩, -⟩ := hgreatest.1
    obtain ⟨g, hg, hgname, -⟩ := exists_archived htold hsteady he hname
    obtain ⟨hlegible, hgp⟩ := mem_voices_archive.mp hg
    obtain ⟨seen, hseen, -⟩ := hlabels.known g hlegible name hgname
    rw [hgp] at hseen
    rw [hseen, (hof seen hseen).unique hgreatest]

/-- The stamp beside the name is that of the newest event to carry any. -/
theorem seen_iff (hsteady : Steady X P S pubkey) {row : Instance}
    (hrow : db.instances[pubkey]? = some row) (stamp : Int) :
    row.nameSeenAt = some stamp
      ↔ IsGreatest (Event.at '' naming (voices X S pubkey)) stamp := by
  have hbound : ∀ f ∈ naming (voices X S pubkey), ∃ seen, row.nameSeenAt = some seen
      ∧ f.at ≤ seen := by
    rintro f ⟨hf, hnamed⟩
    obtain ⟨label, hlabel⟩ := Option.ne_none_iff_exists'.mp hnamed
    obtain ⟨g, hg, hgname, hle⟩ := exists_archived htold hsteady hf hlabel
    obtain ⟨hlegible, hgp⟩ := mem_voices_archive.mp hg
    obtain ⟨row', seen, hrow', hseen, hgle⟩ := hlabels.latest g hlegible
      (by rw [hgname]; exact Option.some_ne_none label)
    rw [hgp, hrow] at hrow'
    cases hrow'
    exact ⟨seen, hseen, hle.trans hgle⟩
  have hof : ∀ seen, row.nameSeenAt = some seen →
      IsGreatest (Event.at '' naming (voices X S pubkey)) seen := by
    intro seen hseen
    obtain ⟨e, he, hp, rfl, hnamed, -⟩ := hlabels.named pubkey row seen hrow hseen
    refine ⟨⟨e, ⟨voices_archive htold (mem_voices_archive.mpr ⟨he, hp⟩), hnamed⟩, rfl⟩, ?_⟩
    rintro _ ⟨f, hf, rfl⟩
    obtain ⟨seen, hseen', hle⟩ := hbound f hf
    rw [hseen] at hseen'
    cases hseen'
    exact hle
  constructor
  · exact hof stamp
  · intro hgreatest
    obtain ⟨f, hf, -⟩ := hgreatest.1
    obtain ⟨seen, hseen, -⟩ := hbound f hf
    rw [hseen, (hof seen hseen).unique hgreatest]

/-- **A STEADY PUBLISHER'S ROW** is the one the set gives it. -/
theorem portrait_of_told (hsteady : Steady X P S pubkey) {row : Instance}
    (hrow : db.instances[pubkey]? = some row) : Portrait X S pubkey row where
  pubkey := (htold.drawn pubkey row hrow).1
  first := by
    obtain ⟨-, -, ⟨e, he, hat⟩, -⟩ := htold.drawn pubkey row hrow
    refine ⟨⟨e, he, hat⟩, ?_⟩
    rintro _ ⟨f, hf, rfl⟩
    obtain ⟨g, hg, -, -, hsure, -, hle, -⟩ := hsteady.framed f hf
    obtain ⟨row', hrow', hfirst, -⟩ := htold.framed pubkey g hg (.inl ⟨hg.1, hsure⟩)
    cases hrow.symm.trans hrow'
    exact hfirst.trans hle
  last := by
    obtain ⟨-, -, -, ⟨e, he, hat⟩⟩ := htold.drawn pubkey row hrow
    refine ⟨⟨e, he, hat⟩, ?_⟩
    rintro _ ⟨f, hf, rfl⟩
    obtain ⟨-, -, g, hg, -, hsure, -, hle⟩ := hsteady.framed f hf
    obtain ⟨row', hrow', -, hlast⟩ := htold.framed pubkey g hg (.inl ⟨hg.1, hsure⟩)
    cases hrow.symm.trans hrow'
    exact hle.trans hlast
  seen := seen_iff htold hlabels hsteady hrow
  name := by
    -- The set's newest named event, read or not, settles the name of all the newest read.
    have hagreed : ∀ e f, Newest (naming (voices X S pubkey)) e →
        Newest (naming (voices X S pubkey)) f → instanceName e = instanceName f := by
      intro e f he hf
      obtain ⟨top, htop⟩ := exists_newest (S := S)
        (A := naming {e | e ∈ S ∧ e.pubkey = pubkey}) (fun g hg => hg.1.1)
        ⟨e, ⟨he.1.1.1, he.1.1.2.1⟩, he.1.2⟩
      obtain ⟨-, hall⟩ := hsteady.agreed top htop
      rw [hall e he, hall f hf]
    intro label
    constructor
    · intro hname
      cases hseen : row.nameSeenAt with
      | none => exact nomatch hname.symm.trans (hlabels.unnamed pubkey row hrow hseen)
      | some seen =>
          obtain ⟨e, he, hp, hat, hnamed, hsame⟩ := hlabels.named pubkey row seen hrow hseen
          refine ⟨e, newest_iff.mpr ⟨⟨voices_archive htold (mem_voices_archive.mpr ⟨he, hp⟩),
            hnamed⟩, ?_⟩, hsame.trans hname⟩
          rw [hat]
          exact (seen_iff htold hlabels hsteady hrow seen).mp hseen
    · rintro ⟨f, hf, hfname⟩
      have hseen := (seen_iff htold hlabels hsteady hrow f.at).mpr (newest_iff.mp hf).2
      obtain ⟨e, he, hp, hat, hnamed, hsame⟩ := hlabels.named pubkey row f.at hrow hseen
      have hnewest : Newest (naming (voices X S pubkey)) e := by
        refine newest_iff.mpr ⟨⟨voices_archive htold (mem_voices_archive.mpr ⟨he, hp⟩),
          hnamed⟩, ?_⟩
        rw [hat]
        exact (newest_iff.mp hf).2
      rw [← hsame, hagreed e f hnewest hf, hfname]

end Final

/-- **A STEADY SET IS ORDER FREE.** -/
theorem orderFree_of_steady (hadm : ∀ e ∈ S, admission X P e = none)
    (hsteady : ∀ pubkey, Known X P S pubkey → Steady X P S pubkey) : OrderFree X P S := by
  have htold : ∀ calls, Receives S calls →
      Told X P S (fun e => e ∈ S) (ingestAll X P calls (Db.empty : Db F)) := by
    intro calls hcalls
    have hrun := told_ingestAll hadm (fun c hc => (hcalls c.event).mpr ⟨c, hc, rfl⟩)
      (told_empty (X := X) (P := P) (S := S))
    have hsame : (fun e => False ∨ ∃ c ∈ calls, c.event = e) = fun e => e ∈ S := by
      funext e
      rw [false_or, ← hcalls e]
    rw [hsame] at hrun
    exact hrun
  have hlabels : ∀ calls, Labels (legible X (ingestAll X P calls (Db.empty : Db F)))
      (ingestAll X P calls Db.empty) := fun calls => labels_ingestAll labels_empty
  -- The row and the names of a known publisher are said by `S`, whatever the order.
  refine ⟨fun calls calls' h h' => ⟨ext fun pubkey => ?_, ext fun key => ?_⟩, ?_⟩
  · cases hrow : (ingestAll X P calls (Db.empty : Db F)).instances[pubkey]? with
    | none =>
        cases hrow' : (ingestAll X P calls' (Db.empty : Db F)).instances[pubkey]? with
        | none => rfl
        | some row' =>
            have hknown := (known_iff_row (htold calls' h')).mpr ⟨row', hrow'⟩
            obtain ⟨row, hsome⟩ := (known_iff_row (htold calls h)).mp hknown
            exact nomatch hrow.symm.trans hsome
    | some row =>
        have hknown := (known_iff_row (htold calls h)).mpr ⟨row, hrow⟩
        obtain ⟨row', hrow'⟩ := (known_iff_row (htold calls' h')).mp hknown
        have hst := hsteady pubkey hknown
        rw [hrow', (portrait_of_told (htold calls h) (hlabels calls) hst hrow).unique
          (portrait_of_told (htold calls' h') (hlabels calls') hst hrow')]
  · obtain ⟨⟨pubkey, name⟩, rfl⟩ := toLex.surjective key
    by_cases hknown : Known X P S pubkey
    · have hst := hsteady pubkey hknown
      exact Option.ext fun stamp => (listed_iff (htold calls h) (hlabels calls) hst name
        stamp).trans (listed_iff (htold calls' h') (hlabels calls') hst name stamp).symm
    · have hnone : ∀ calls, Receives S calls →
          (ingestAll X P calls (Db.empty : Db F)).instanceNames[toLex (pubkey, name)]? = none := by
        intro calls hcalls
        cases hrow : (ingestAll X P calls (Db.empty : Db F)).instanceNames[toLex (pubkey,
            name)]? with
        | none => rfl
        | some stamp =>
            obtain ⟨e, he, hp, hname, -⟩ := (hlabels calls).listed pubkey name stamp hrow
            obtain ⟨row, -, hsome, -⟩ := (hlabels calls).latest e he
              (by rw [hname]; exact Option.some_ne_none name)
            rw [hp] at hsome
            exact absurd ((known_iff_row (htold calls hcalls)).mpr ⟨row, hsome⟩) hknown
      rw [hnone calls h, hnone calls' h']
  · intro calls hcalls pubkey row hrow e he
    have hst := hsteady pubkey ((known_iff_row (htold calls hcalls)).mpr ⟨row, hrow⟩)
    have hportrait := portrait_of_told (htold calls hcalls) (hlabels calls) hst hrow
    obtain ⟨hsome, hall⟩ := hst.agreed e he
    obtain ⟨f, hf⟩ := exists_newest (S := S) (A := naming (voices X S pubkey))
      (fun g hg => hg.1.1) hsome
    obtain ⟨label, hlabel⟩ := Option.ne_none_iff_exists'.mp hf.1.2
    rw [(hportrait.name label).mpr ⟨f, hf, hlabel⟩, ← hall f hf, hlabel]

end Bestiary
