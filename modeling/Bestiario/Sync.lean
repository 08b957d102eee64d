import Bestiario.Convergence

/-! # Following a relay

    `commands/sync.rs` and `nostr/filters.rs`: each `(relay, kind)` has a
    cursor, and a subscription asks for what was published since the cursor
    rewound by the overlap.  The cursor is the NEWEST event accepted; a relay
    replays in whatever order it likes, and a subscription can be cut after any
    of what it sends.

    A run is a list of subscriptions over one relay and one kind, each with the
    calls of `ingest` it led to before it was cut.  Calls for other relays and
    other kinds may stand anywhere between.  An event is OWED once a request
    matched it and until it is delivered. -/

namespace Sync

open Keyed Wire Parse Repo Pipeline Derived

variable {F : Type} {X : Externals F} {P : Policy}

/-! ## Filters -/

/-- A half-open interval of unix seconds. -/
structure Range where
  from' : Int
  until' : Int
  deriving DecidableEq

/-- `Range::onwards`: no end. -/
def Range.onwards (from' : Int) : Range := ⟨from', 2 ^ 63 - 1⟩

/-- A filter as a relay reads it; no author listed means any. -/
structure Filter where
  kind : UInt16
  identifier : Option String
  authors : List String
  since : Option Nat
  until' : Option Nat
  limit : Option Nat
  deriving DecidableEq

/-- `window`: an open end is an absent field, `until` the last second inside. -/
def window (range : Range) : Option Nat × Option Nat :=
  (if range.from' > 0 then some range.from'.toNat else none,
    if range.until' < 2 ^ 63 - 1 then some (max (range.until' - 1) 0).toNat else none)

/-- `filters::for_kind`: an untagged kind is asked of the vouched only, and of
    nobody while there are none. -/
def forKind (kind : UInt16) (authors vouched : List String) (range : Option Range)
    (limit : Option Nat) : Option Filter :=
  let narrowed (authors : List String) : Filter := {
    kind, authors, limit
    identifier := if kind = ratesKind then some ratesIdentifier else none
    since := range.bind fun range => (window range).1
    until' := range.bind fun range => (window range).2 }
  if untaggedKinds.contains kind then
    if vouched.isEmpty then none else some (narrowed vouched)
  else some (narrowed authors)

/-- What a relay sends in answer to a filter (NIP-01). -/
def Filter.matches (filter : Filter) (e : Event) : Bool :=
  e.kind == filter.kind
    && (filter.identifier.all fun d =>
      e.tags.any fun tag => tag.head? == some "d" && tag[1]? == some d)
    && (filter.authors.isEmpty || filter.authors.contains e.pubkey)
    && (filter.since.all fun since => decide (since ≤ e.createdAt.toNat))
    && (filter.until'.all fun until' => decide (e.createdAt.toNat ≤ until'))

/-! ## The follower -/

/-- What one relay is followed with. -/
structure Follower where
  relayUrl : String
  authors : List String
  listed : List String
  overlap : Int
  /-- `PublicKey::parse`, rendered as the hex it was read from. -/
  parseKey : String → Option String

/-- `instances::platform_proven`: the publishers of the four tagged tables. -/
def platformProven (db : Db F) : List String :=
  (distinct OrderVersionRow.pubkey db.orderVersions
    ++ distinct FeeRow.pubkey db.devFees
    ++ distinct DisputeVersionRow.pubkey db.disputeVersions
    ++ distinct InstanceInfo.pubkey db.instanceInfo).dedup.insertionSort (· ≤ ·)

/-- One more vouched key, if it parses and is not there yet. -/
def vouch (S : Follower) (vouched : List String) (pubkey : String) : List String :=
  match S.parseKey pubkey with
  | some key => if vouched.contains key then vouched else vouched ++ [key]
  | none => vouched

/-- `Sync::vouched`: whom an untagged kind may be asked about. -/
def Follower.vouched (S : Follower) (db : Db F) : List String :=
  (platformProven db).foldl (vouch S) S.listed

/-- `resume_from`: the cursor rewound by `overlap`, never before the epoch. -/
def resumeFrom (cursor : Option Int) (overlap : Int) : Option Int :=
  cursor.map fun cursor => max (wrapI64 (cursor - overlap)) 0

/-- The cursor of the relay for `kind`. -/
def Follower.cursor (S : Follower) (kind : UInt16) (db : Db F) : Option Int :=
  (SyncState.get S.relayUrl kind db).map Cursor.lastCreatedAt

/-- What the relay is asked for: the first half of `Sync::filter`. -/
def Follower.request (S : Follower) (kind : UInt16) (db : Db F) : Option Filter :=
  let from' := resumeFrom (S.cursor kind db) S.overlap
  forKind kind S.authors (S.vouched db) (from'.map Range.onwards) none

/-- `Sync::filter`: what is asked for is also recorded. -/
def Follower.filter (S : Follower) (kind : UInt16) (now : Int) (db : Db F) :
    Option Filter × Db F :=
  match S.request kind db with
  | none => (none, db)
  | some filter =>
      let from' := resumeFrom (S.cursor kind db) S.overlap
      (some filter, IndexedKinds.record kind (from'.getD 0) now db)

/-! ## Runs -/

/-- One subscription: the wall clock it was opened at, and the calls of `ingest`
    until it was cut. -/
structure Subscription where
  now : Int
  calls : List Call

/-- The database when the next subscription is opened. -/
def Follower.follow (X : Externals F) (P : Policy) (S : Follower) (kind : UInt16)
    (db : Db F) (s : Subscription) : Db F :=
  ingestAll X P s.calls (S.filter kind s.now db).2

/-- The database after subscriptions one after another. -/
def Follower.run (X : Externals F) (P : Policy) (S : Follower) (kind : UInt16)
    (subscriptions : List Subscription) (db : Db F) : Db F :=
  subscriptions.foldl (S.follow X P kind) db

/-- `c` is a delivery of this relay and kind. -/
def Follower.ours (S : Follower) (kind : UInt16) (c : Call) : Bool :=
  c.relayUrl == S.relayUrl && c.event.kind == kind

/-- A request made of `db` asks for `e`. -/
def Follower.Asks (S : Follower) (kind : UInt16) (db : Db F) (e : Event) : Prop :=
  ∃ filter, S.request kind db = some filter ∧ filter.matches e = true

/-- The relay answers from its store, with what was asked for and the pipeline
    accepts; it may be cut anywhere, and other calls may stand between. -/
def Follower.Answers (X : Externals F) (P : Policy) (S : Follower) (kind : UInt16)
    (store : Finset Event) (db : Db F) (s : Subscription) : Prop :=
  ∀ before c after, s.calls = before ++ c :: after → S.ours kind c = true →
    c.event ∈ store ∧ S.Asks kind db c.event
      ∧ Admitted X P c.event (ingestAll X P before (S.filter kind s.now db).2)
      ∧ ∃ parsed, parse X c.event = .ok parsed

/-- `e` was delivered in one of the subscriptions. -/
def Follower.Delivered (S : Follower) (kind : UInt16) (subscriptions : List Subscription)
    (e : Event) : Prop :=
  ∃ s ∈ subscriptions, ∃ c ∈ s.calls, S.ours kind c = true ∧ c.event = e

/-- A stored event that was asked for and is not yet delivered. -/
structure Follower.Owed (X : Externals F) (P : Policy) (S : Follower) (kind : UInt16)
    (store : Finset Event) (db : Db F) (subscriptions : List Subscription) (e : Event) :
    Prop where
  stored : e ∈ store
  asked : ∃ before s after, subscriptions = before ++ s :: after
    ∧ S.Asks kind (S.run X P kind before db) e
  waiting : ¬ S.Delivered kind subscriptions e

/-- The stamps delivered, in order. -/
def Follower.stamps (S : Follower) (kind : UInt16) (subscriptions : List Subscription) :
    List Int :=
  (subscriptions.flatMap fun s => s.calls.filter (S.ours kind)).map fun c => c.event.at

/-- The newest stamp delivered, or the cursor the run began with if that is
    newer. -/
def Follower.newest (S : Follower) (kind : UInt16) (subscriptions : List Subscription)
    (db : Db F) : Option Int :=
  ((S.cursor kind db).toList ++ S.stamps kind subscriptions).max?

/-- `e` is stamped no more than the overlap before the newest event delivered. -/
def Follower.InReach (S : Follower) (kind : UInt16) (subscriptions : List Subscription)
    (db : Db F) (e : Event) : Prop :=
  ∀ newest, S.newest kind subscriptions db = some newest →
    wrapI64 (newest - S.overlap) ≤ e.createdAt.toNat

/-! ## The cursor is the newest stamp -/

theorem cursor_congr (S : Follower) (kind : UInt16) {db db' : Db F}
    (h : db'.syncState = db.syncState) : S.cursor kind db' = S.cursor kind db := by
  rw [Follower.cursor, Follower.cursor, SyncState.get, SyncState.get, h]

theorem cursor_advance (S : Follower) (kind : UInt16) (c : Call) (db : Db F) :
    S.cursor kind (advance c db)
      = if S.ours kind c then
          some (match S.cursor kind db with
            | some old => max old c.event.at
            | none => c.event.at)
        else S.cursor kind db := by
  have hkey : toLex (c.relayUrl, c.event.kind) = toLex (S.relayUrl, kind)
      ↔ S.ours kind c = true := by
    rw [Follower.ours, Bool.and_eq_true, beq_iff_eq, beq_iff_eq, toLex_inj, Prod.mk.injEq]
  rw [Follower.cursor, SyncState.get, advance, SyncState.advance, getElem?_insert_eq]
  by_cases hours : S.ours kind c = true
  · rw [if_pos (hkey.mpr hours), if_pos hours, hkey.mpr hours, Follower.cursor, SyncState.get]
    cases db.syncState[toLex (S.relayUrl, kind)]? with
    | none => rfl
    | some old => rfl
  · rw [if_neg (fun h => hours (hkey.mp h)), if_neg hours]
    rfl

/-- **STEP**: an accepted delivery moves the cursor; nothing else does. -/
theorem cursor_ingest {S : Follower} {kind : UInt16} {c : Call} {db : Db F}
    (h : S.ours kind c = true →
      Admitted X P c.event db ∧ ∃ parsed, parse X c.event = .ok parsed) :
    S.cursor kind (ingest X P c db).2 = S.cursor kind (advance c db) := by
  obtain ⟨outcome, db', heq, hcases⟩ := ingest_cases X P c db
  rw [heq]
  cases hcases with
  | turnedAway hno =>
      rw [cursor_advance, if_neg fun hours => hno (h hours).1]
  | unread _ hp =>
      rw [cursor_advance, if_neg]
      · rfl
      · intro hours
        obtain ⟨-, parsed, hok⟩ := h hours
        exact nomatch hp.symm.trans hok
  | redundant _ _ _ => rfl
  | duplicate _ _ _ _ => rfl
  | @stored parsed _ hp _ _ =>
      have hpersist := (persisted hp { db with
        events := db.events.insertIfNew c.event.id c.record }).syncState
      rw [cursor_advance, cursor_advance, cursor_congr S kind hpersist]
      rfl

theorem max?_concat (xs : List Int) (n : Int) :
    (xs ++ [n]).max? = some (match xs.max? with
      | some m => max m n
      | none => n) := by
  cases xs with
  | nil => rfl
  | cons x xs =>
      rw [List.cons_append, List.max?_cons', List.max?_cons', List.foldl_append]
      rfl

/-- The cursor after the deliveries of one subscription. -/
theorem cursor_ingestAll {S : Follower} {kind : UInt16} {db : Db F} {calls : List Call}
    {seen : List Int} (hseen : S.cursor kind db = seen.max?)
    (h : ∀ before c after, calls = before ++ c :: after → S.ours kind c = true →
      Admitted X P c.event (ingestAll X P before db) ∧ ∃ parsed, parse X c.event = .ok parsed) :
    S.cursor kind (ingestAll X P calls db)
      = (seen ++ (calls.filter (S.ours kind)).map fun c => c.event.at).max? := by
  induction calls using List.reverseRecOn with
  | nil =>
      show S.cursor kind db = _
      rw [List.filter_nil, List.map_nil, List.append_nil, hseen]
  | append_singleton calls c ih =>
      have hbefore := ih fun before d after heq =>
        h before d (after ++ [c]) (by rw [heq, List.append_assoc, List.cons_append])
      have hlast := h calls c [] rfl
      rw [ingestAll, List.foldl_append]
      show S.cursor kind (ingest X P c (ingestAll X P calls db)).2 = _
      rw [cursor_ingest hlast, cursor_advance, List.filter_append, List.map_append,
        ← List.append_assoc, hbefore]
      by_cases hours : S.ours kind c = true
      · rw [if_pos hours, List.filter_cons_of_pos hours, List.filter_nil, List.map_cons,
          List.map_nil, max?_concat]
      · rw [if_neg hours, List.filter_cons_of_neg hours, List.filter_nil, List.map_nil,
          List.append_nil]

theorem filter_frame (S : Follower) (kind : UInt16) (now : Int) (db : Db F) :
    ∃ indexedKinds, (S.filter kind now db).2 = { db with indexedKinds } := by
  rw [Follower.filter]
  cases S.request kind db with
  | none => exact ⟨db.indexedKinds, rfl⟩
  | some filter => exact ⟨_, rfl⟩

theorem run_concat (S : Follower) (kind : UInt16) (subscriptions : List Subscription)
    (s : Subscription) (db : Db F) :
    S.run X P kind (subscriptions ++ [s]) db
      = S.follow X P kind (S.run X P kind subscriptions db) s := by
  rw [Follower.run, List.foldl_append]
  rfl

/-- **RUN**: the cursor is the newest stamp delivered. -/
theorem cursor_run {S : Follower} {kind : UInt16} {store : Finset Event} {db : Db F}
    {subscriptions : List Subscription}
    (h : ∀ before s after, subscriptions = before ++ s :: after →
      S.Answers X P kind store (S.run X P kind before db) s) :
    S.cursor kind (S.run X P kind subscriptions db) = S.newest kind subscriptions db := by
  induction subscriptions using List.reverseRecOn with
  | nil =>
      rw [Follower.newest, Follower.stamps, List.flatMap_nil, List.map_nil, List.append_nil]
      show S.cursor kind db = _
      cases S.cursor kind db with
      | none => rfl
      | some cursor => rfl
  | append_singleton subscriptions s ih =>
      have hbefore := ih fun before t after heq =>
        h before t (after ++ [s]) (by rw [heq, List.append_assoc, List.cons_append])
      have hlast := h subscriptions s [] rfl
      obtain ⟨indexedKinds, hframe⟩ := filter_frame S kind s.now
        (S.run X P kind subscriptions db)
      have hopened : S.cursor kind (S.filter kind s.now (S.run X P kind subscriptions db)).2
          = S.newest kind subscriptions db := by
        rw [← hbefore, hframe]
        rfl
      rw [run_concat, Follower.follow, cursor_ingestAll hopened
        (fun before c after heq hours => (hlast before c after heq hours).2.2)]
      rw [Follower.newest, Follower.stamps, Follower.stamps, List.flatMap_append,
        List.map_append, ← List.append_assoc]
      simp

/-! ## Who is vouched for stays vouched for -/

theorem mem_vouch {S : Follower} {key pubkey : String} {vouched : List String} :
    key ∈ vouch S vouched pubkey ↔ key ∈ vouched ∨ S.parseKey pubkey = some key := by
  rw [vouch]
  cases hkey : S.parseKey pubkey with
  | none => simp
  | some k =>
      dsimp only
      rw [Option.some.injEq]
      by_cases hin : vouched.contains k = true
      · rw [if_pos hin]
        refine ⟨Or.inl, ?_⟩
        rintro (h | rfl)
        · exact h
        · exact List.contains_iff_mem.mp hin
      · rw [if_neg hin, List.mem_append, List.mem_singleton, eq_comm (a := k)]

theorem mem_foldl_vouch {S : Follower} {key : String} (proven listed : List String) :
    key ∈ proven.foldl (vouch S) listed
      ↔ key ∈ listed ∨ ∃ pubkey ∈ proven, S.parseKey pubkey = some key := by
  induction proven generalizing listed with
  | nil => simp
  | cons pubkey rest ih =>
      rw [List.foldl_cons, ih, mem_vouch, or_assoc, List.exists_mem_cons_iff]

theorem mem_platformProven {pubkey : String} {db : Db F} :
    pubkey ∈ platformProven db
      ↔ pubkey ∈ distinct OrderVersionRow.pubkey db.orderVersions
        ∨ pubkey ∈ distinct FeeRow.pubkey (unflagged db.devFees)
        ∨ pubkey ∈ distinct DisputeVersionRow.pubkey db.disputeVersions
        ∨ pubkey ∈ distinct InstanceInfo.pubkey db.instanceInfo := by
  have hfees : pubkey ∈ distinct FeeRow.pubkey (unflagged db.devFees)
      ↔ pubkey ∈ distinct FeeRow.pubkey db.devFees := by
    rw [mem_distinct, mem_distinct]
    simp only [unflagged, Std.ExtTreeMap.getElem?_map, Option.map_eq_some_iff]
    constructor
    · rintro ⟨k, row, ⟨old, hold, rfl⟩, hrow⟩
      exact ⟨k, old, hold, hrow⟩
    · rintro ⟨k, row, hk, hrow⟩
      exact ⟨k, _, ⟨row, hk, rfl⟩, hrow⟩
  rw [platformProven, List.mem_insertionSort, List.mem_dedup, List.mem_append,
    List.mem_append, List.mem_append, hfees, or_assoc, or_assoc]

theorem distinct_put {V : Type} {f : V → String} {t : Table String V} {k b : String}
    {v : Option V} (h : b ∈ distinct f t) : b ∈ distinct f (put t k v) := by
  obtain ⟨a, w, ha, hw⟩ := mem_distinct.mp h
  exact mem_distinct.mpr ⟨a, w, getElem?_put_eq_some.mpr (Or.inl ha), hw⟩

/-- **STEP**: a publisher proven is not forgotten. -/
theorem platformProven_ingest {c : Call} {db : Db F} {pubkey : String}
    (h : pubkey ∈ platformProven db) : pubkey ∈ platformProven (ingest X P c db).2 := by
  obtain ⟨outcome, db', heq, hcases⟩ := ingest_cases X P c db
  rw [heq]
  cases hcases with
  | turnedAway _ => exact h
  | unread _ _ => exact h
  | redundant _ _ _ => exact h
  | duplicate _ _ _ _ => exact h
  | @stored parsed _ hp _ _ =>
      have hdb := persisted hp { db with
        events := db.events.insertIfNew c.event.id c.record }
      show pubkey ∈ platformProven (persist X c.event parsed _)
      rw [mem_platformProven] at h ⊢
      rw [hdb.orderVersions, hdb.devFees, hdb.disputeVersions, hdb.instanceInfo]
      rcases h with h | h | h | h
      · exact Or.inl (distinct_put h)
      · exact Or.inr (Or.inl (distinct_put h))
      · exact Or.inr (Or.inr (Or.inl (distinct_put h)))
      · exact Or.inr (Or.inr (Or.inr (distinct_put h)))

theorem platformProven_ingestAll {calls : List Call} {db : Db F} {pubkey : String}
    (h : pubkey ∈ platformProven db) :
    pubkey ∈ platformProven (ingestAll X P calls db) := by
  induction calls generalizing db with
  | nil => exact h
  | cons c rest ih => exact ih (platformProven_ingest h)

/-- **RUN**: nor is one vouched for. -/
theorem vouched_run {S : Follower} {kind : UInt16} {subscriptions : List Subscription}
    {db : Db F} {key : String} (h : key ∈ S.vouched db) :
    key ∈ S.vouched (S.run X P kind subscriptions db) := by
  induction subscriptions generalizing db with
  | nil => exact h
  | cons s rest ih =>
      refine ih ?_
      obtain ⟨indexedKinds, hframe⟩ := filter_frame S kind s.now db
      rw [Follower.vouched, mem_foldl_vouch] at h ⊢
      rcases h with hlisted | ⟨pubkey, hproven, hkey⟩
      · exact Or.inl hlisted
      · refine Or.inr ⟨pubkey, platformProven_ingestAll ?_, hkey⟩
        rw [hframe]
        exact hproven

/-! ## What a request asks for -/

/-- A subscription has no end. -/
theorem until_onwards (from' : Option Int) :
    ((from'.map Range.onwards).bind fun range => (window range).2) = none := by
  cases from' with
  | none => rfl
  | some from' => rfl

/-- It starts at the cursor rewound. -/
theorem since_onwards (cursor : Option Int) (overlap : Int) (n : Nat) :
    ((((resumeFrom cursor overlap).map Range.onwards).bind fun range =>
        (window range).1).all fun since => decide (since ≤ n)) = true
      ↔ ∀ c, cursor = some c → wrapI64 (c - overlap) ≤ n := by
  cases cursor with
  | none => simp [resumeFrom]
  | some c =>
      simp only [resumeFrom, Option.map_some, Option.bind_some, window, Range.onwards,
        Option.some.injEq, forall_eq']
      by_cases hpos : max (wrapI64 (c - overlap)) 0 > 0
      · rw [if_pos hpos, Option.all_some, decide_eq_true_iff]
        omega
      · rw [if_neg hpos]
        simp only [Option.all_none, true_iff]
        omega

/-- What a request narrows by besides the time: the kind, the identifier and the
    authors. -/
structure Follower.Addressed (S : Follower) (kind : UInt16) (db : Db F) (e : Event) :
    Prop where
  ofKind : e.kind = kind
  identified : kind = ratesKind →
    (e.tags.any fun tag => tag.head? == some "d" && tag[1]? == some ratesIdentifier) = true
  authored : if untaggedKinds.contains kind then e.pubkey ∈ S.vouched db
    else S.authors = [] ∨ e.pubkey ∈ S.authors

theorem identified_iff (kind : UInt16) (e : Event) :
    ((if kind = ratesKind then some ratesIdentifier else none).all fun d =>
        e.tags.any fun tag => tag.head? == some "d" && tag[1]? == some d) = true
      ↔ (kind = ratesKind → (e.tags.any fun tag =>
        tag.head? == some "d" && tag[1]? == some ratesIdentifier) = true) := by
  by_cases hkind : kind = ratesKind
  · rw [if_pos hkind]
    simp [hkind]
  · rw [if_neg hkind]
    simp [hkind]

theorem asks_iff (S : Follower) (kind : UInt16) (db : Db F) (e : Event) :
    S.Asks kind db e ↔ S.Addressed kind db e
      ∧ ∀ cursor, S.cursor kind db = some cursor →
        wrapI64 (cursor - S.overlap) ≤ e.createdAt.toNat := by
  have hmatches : ∀ authors, (Filter.matches {
        kind, authors, limit := none
        identifier := if kind = ratesKind then some ratesIdentifier else none
        since := ((resumeFrom (S.cursor kind db) S.overlap).map Range.onwards).bind
          fun range => (window range).1
        until' := ((resumeFrom (S.cursor kind db) S.overlap).map Range.onwards).bind
          fun range => (window range).2 } e) = true
      ↔ (e.kind = kind ∧ (kind = ratesKind → (e.tags.any fun tag =>
          tag.head? == some "d" && tag[1]? == some ratesIdentifier) = true)
          ∧ (authors = [] ∨ e.pubkey ∈ authors))
        ∧ ∀ cursor, S.cursor kind db = some cursor →
          wrapI64 (cursor - S.overlap) ≤ e.createdAt.toNat := by
    intro authors
    simp only [Filter.matches, until_onwards, Bool.and_eq_true, since_onwards,
      identified_iff, beq_iff_eq, Option.all_none, and_true, Bool.or_eq_true,
      List.isEmpty_iff, List.contains_iff_mem, and_assoc]
  rw [Follower.Asks, Follower.request, forKind]
  by_cases huntagged : untaggedKinds.contains kind = true
  · rw [if_pos huntagged]
    by_cases hempty : (S.vouched db).isEmpty = true
    · -- Nobody is vouched for, and the kind is not asked for at all.
      rw [if_pos hempty]
      refine iff_of_false (fun ⟨_, h, _⟩ => nomatch h) ?_
      rintro ⟨haddr, -⟩
      have hauthor := haddr.authored
      rw [if_pos huntagged, List.isEmpty_iff.mp hempty] at hauthor
      exact nomatch hauthor
    · rw [if_neg hempty]
      simp only [Option.some.injEq, exists_eq_left', hmatches]
      refine and_congr_left fun _ => ⟨?_, ?_⟩
      · rintro ⟨hkind, hid, hauthor⟩
        refine ⟨hkind, hid, ?_⟩
        rw [if_pos huntagged]
        exact hauthor.resolve_left fun h => hempty (List.isEmpty_iff.mpr h)
      · rintro ⟨hkind, hid, hauthor⟩
        rw [if_pos huntagged] at hauthor
        exact ⟨hkind, hid, Or.inr hauthor⟩
  · rw [if_neg huntagged]
    simp only [Option.some.injEq, exists_eq_left', hmatches]
    refine and_congr_left fun _ => ⟨?_, ?_⟩
    · rintro ⟨hkind, hid, hauthor⟩
      refine ⟨hkind, hid, ?_⟩
      rw [if_neg huntagged]
      exact hauthor
    · rintro ⟨hkind, hid, hauthor⟩
      rw [if_neg huntagged] at hauthor
      exact ⟨hkind, hid, hauthor⟩

theorem Follower.Addressed.run {S : Follower} {kind : UInt16} {db : Db F} {e : Event}
    (h : S.Addressed kind db e) (subscriptions : List Subscription) :
    S.Addressed kind (S.run X P kind subscriptions db) e := by
  refine ⟨h.ofKind, h.identified, ?_⟩
  have hauthor := h.authored
  split at hauthor
  next huntagged =>
    rw [if_pos huntagged]
    exact vouched_run hauthor
  next htagged =>
    rw [if_neg htagged]
    exact hauthor

/-! ## The result -/

/-- **NOTHING OWED IS LOST EXACTLY WHEN IT STAYS IN REACH.**  However a relay
    answers and wherever it is cut, every event still owed is asked for by the
    next subscription iff it is stamped no more than the overlap before the
    newest event delivered so far. -/
theorem owed_asked_iff_in_reach (S : Follower) (kind : UInt16) (store : Finset Event)
    (db : Db F) (subscriptions : List Subscription)
    (h : ∀ before s after, subscriptions = before ++ s :: after →
      S.Answers X P kind store (S.run X P kind before db) s) :
    (∀ before s after, subscriptions = before ++ s :: after →
        ∀ e, S.Owed X P kind store db before e →
          S.Asks kind (S.run X P kind before db) e)
      ↔ ∀ before s after, subscriptions = before ++ s :: after →
        ∀ e, S.Owed X P kind store db before e → S.InReach kind before db e := by
  have hone : ∀ before s after, subscriptions = before ++ s :: after →
      ∀ e, S.Owed X P kind store db before e →
        (S.Asks kind (S.run X P kind before db) e ↔ S.InReach kind before db e) := by
    intro before s after heq e howed
    have hcursor : S.cursor kind (S.run X P kind before db) = S.newest kind before db :=
      cursor_run fun first t rest hfirst =>
        h first t (rest ++ s :: after) (by rw [heq, hfirst, List.append_assoc, List.cons_append])
    obtain ⟨first, t, rest, hsplit, hasked⟩ := howed.asked
    have haddr : S.Addressed kind (S.run X P kind before db) e := by
      have hthen := ((asks_iff S kind _ e).mp hasked).1.run (X := X) (P := P) (t :: rest)
      rw [hsplit, Follower.run, List.foldl_append]
      exact hthen
    rw [asks_iff, hcursor]
    exact ⟨fun hasks => hasks.2, fun hreach => ⟨haddr, hreach⟩⟩
  refine forall₄_congr fun before s after heq => forall₂_congr fun e howed => ?_
  exact hone before s after heq e howed

/-! ## A relay cut after its newest event -/

/-- An order completed two hours after `pendingOrder`. -/
def lateOrder : Event :=
  Convergence.orderEvent
    "1000000000000000000000000000000000000000000000000000000000000009"
    Convergence.alice 1785607200 "success"

def twoOrders : Externals Int :=
  Externals.over [Convergence.pendingOrder, lateOrder] (by decide) []

/-- What the relay holds. -/
def held : Finset Event := {Convergence.pendingOrder, lateOrder}

/-- A follower of one relay, rewinding by `overlap`. -/
def follower (overlap : Int) : Follower := ⟨"wss://a", [], [], overlap, some⟩

/-- Newest first, and the stream ends after one event. -/
def cutShort : Subscription :=
  ⟨1785610000, [⟨lateOrder, "wss://a", 1785610001⟩]⟩

/-- The subscription that resumes. -/
def resumed : Subscription := ⟨1785610060, []⟩

/-- With no cursor everything of the kind is asked for. -/
theorem asks_at_first (overlap : Int) {e : Event} (hkind : e.kind = orderKind) :
    (follower overlap).Asks orderKind (Db.empty : Db Int) e := by
  refine (asks_iff _ _ _ _).mpr ⟨⟨hkind, ?_, ?_⟩, fun _ h => nomatch h⟩
  · intro hrates
    exact absurd hrates (by decide)
  · exact Or.inl rfl

theorem answers_cutShort (overlap : Int) (before : List Subscription) (s : Subscription)
    (after : List Subscription) (heq : [cutShort, resumed] = before ++ s :: after) :
    (follower overlap).Answers twoOrders Convergence.openPolicy orderKind held
      ((follower overlap).run twoOrders Convergence.openPolicy orderKind before Db.empty)
      s := by
  rcases before with _ | ⟨first, _ | ⟨second, before⟩⟩
  · obtain ⟨rfl, -⟩ := List.cons.inj heq
    rintro (_ | ⟨c', earlier⟩) c later hcalls -
    · obtain ⟨rfl, -⟩ := List.cons.inj hcalls
      exact ⟨by decide, asks_at_first overlap rfl, ⟨by decide, rfl⟩, ⟨_, rfl⟩⟩
    · simp [cutShort] at hcalls
  · obtain ⟨-, hrest⟩ := List.cons.inj heq
    obtain ⟨rfl, -⟩ := List.cons.inj hrest
    intro earlier c later hcalls _
    simp [resumed] at hcalls
  · simp at heq

theorem owed_cutShort (overlap : Int) :
    (follower overlap).Owed twoOrders Convergence.openPolicy orderKind held Db.empty
      [cutShort] Convergence.pendingOrder where
  stored := by decide
  asked := ⟨[], cutShort, [], rfl, asks_at_first overlap rfl⟩
  waiting := by
    rintro ⟨s, hs, c, hc, -, hevent⟩
    obtain rfl := List.mem_singleton.mp hs
    obtain rfl := List.mem_singleton.mp hc
    exact absurd hevent (by decide)

/-- A day's rewind reaches the order the cut left behind. -/
theorem day_of_overlap_reaches_back :
    (follower 86400).Asks orderKind
      ((follower 86400).run twoOrders Convergence.openPolicy orderKind [cutShort] Db.empty)
      Convergence.pendingOrder := by
  refine (owed_asked_iff_in_reach (follower 86400) orderKind held Db.empty
    [cutShort, resumed] (answers_cutShort 86400)).mpr ?_ [cutShort] resumed [] rfl _
    (owed_cutShort 86400)
  rintro (_ | ⟨first, _ | ⟨second, before⟩⟩) s after heq e howed newest hnewest
  · exact nomatch hnewest
  · obtain ⟨rfl, -⟩ := List.cons.inj heq
    cases hnewest
    have hstored := howed.stored
    simp only [held, Finset.mem_insert, Finset.mem_singleton] at hstored
    rcases hstored with rfl | rfl
    · decide
    · decide
  · simp at heq

/-- **THE OLDER ORDER IS NEVER ASKED FOR AGAIN**: the relay sent its newest order
    first and was cut; an hour's rewind does not reach the one two hours older. -/
theorem hour_of_overlap_loses_order :
    (∀ before s after, [cutShort, resumed] = before ++ s :: after →
      (follower 3600).Answers twoOrders Convergence.openPolicy orderKind held
        ((follower 3600).run twoOrders Convergence.openPolicy orderKind before Db.empty) s) ∧
      (follower 3600).Owed twoOrders Convergence.openPolicy orderKind held Db.empty
        [cutShort] Convergence.pendingOrder ∧
      ¬ (follower 3600).Asks orderKind
        ((follower 3600).run twoOrders Convergence.openPolicy orderKind [cutShort] Db.empty)
        Convergence.pendingOrder := by
  refine ⟨answers_cutShort 3600, owed_cutShort 3600, fun hasks => ?_⟩
  have hcursor : (follower 3600).cursor orderKind
      ((follower 3600).run twoOrders Convergence.openPolicy orderKind [cutShort] Db.empty)
      = some 1785607200 := by decide +kernel
  have hsince := ((asks_iff _ _ _ _).mp hasks).2 _ hcursor
  exact absurd hsince (by decide)

end Sync
