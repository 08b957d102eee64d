import Bestiario.Tally

/-! # The follower as a state machine

    `Sync::follow` of `commands/sync.rs`, over any number of relays.  A turn reads
    the connection set, dials, and reads the tagged kinds to the end of what the
    relays have stored; then a subscription for every kind is followed until the
    stream ends, a relay list names somebody new, or the run is stopped.

    What the machine takes in is what the world does next: a relay answers a dial
    or does not, takes a subscription or does not, sends an event or the end of
    what it has stored; thirty seconds pass; the stream ends; the operator stops
    the run.  A write that fails ends a run, so every state reached is one a run
    can be left in. -/

namespace Dialling

open Keyed Wire Parse Repo Pipeline
open History (Counts)
open Sync (Range Filter Follower platformProven forKind resumeFrom)

variable {F : Type} {X : Externals F}

/-! ## The settings of a run -/

/-- `TAGGED_KINDS`: what is asked for without the archive's help. -/
def taggedKinds : List UInt16 := indexedKinds.filter fun kind => !untaggedKinds.contains kind

/-- `Sync`: whom it asks about, how far it rewinds, and whether it follows the relays
    it discovers. -/
structure Station where
  settings : NostrSettings
  policy : Policy
  authors : List String
  listed : List String
  overlap : Int
  /-- `PublicKey::parse`, rendered as the hex it was read from. -/
  parseKey : String → Option String
  /-- `RelayUrl::from_str`. -/
  parseUrl : String → Option String

/-- One relay of it. -/
def Station.follower (S : Station) (relay : String) : Follower :=
  ⟨relay, S.authors, S.listed, S.overlap, S.parseKey⟩

/-- `Sync::vouched`; no relay enters. -/
def Station.vouched (S : Station) (db : Db F) : List String := (S.follower "").vouched db

/-- `Sync::filter`: what is asked for is also recorded. -/
def Station.filter (S : Station) (relay : String) (kind : UInt16) (vouched : List String)
    (now : Int) (db : Db F) : Option Filter × Db F :=
  let from' := resumeFrom ((S.follower relay).cursor kind db) S.overlap
  match forKind kind S.authors vouched (from'.map Range.onwards) none with
  | none => (none, db)
  | some filter => (some filter, IndexedKinds.record kind (from'.getD 0) now db)

/-- The filters of one relay, kind after kind. -/
def Station.filters (S : Station) (relay : String) (vouched : List String) (now : Int) :
    List UInt16 → Db F → List Filter × Db F
  | [], db => ([], db)
  | kind :: rest, db =>
      match S.filter relay kind vouched now db with
      | (none, db) => S.filters relay vouched now rest db
      | (some filter, db) =>
          (filter :: (S.filters relay vouched now rest db).1,
            (S.filters relay vouched now rest db).2)

/-- The relays left with something to be asked, each with its filters. -/
def Station.targetsFrom (S : Station) (kinds : List UInt16) (vouched : List String)
    (now : Int) : List String → Db F → List (String × List Filter) × Db F
  | [], db => ([], db)
  | relay :: rest, db =>
      let (perRelay, db) := S.filters relay vouched now kinds db
      let (targets, db) := S.targetsFrom kinds vouched now rest db
      (if perRelay.isEmpty then targets else (relay, perRelay) :: targets, db)

/-- `Sync::targets`. -/
def Station.targets (S : Station) (kinds : List UInt16) (now : Int) (client : RelayClient)
    (db : Db F) : List (String × List Filter) × Db F :=
  S.targetsFrom kinds (S.vouched db) now client.relays db

/-- `backoff`, in seconds: doubled from one, a minute at most. -/
def backoff (attempt : Nat) : Nat := min (1 * 2 ^ min (attempt - 1) 31) 60

/-! ## The machine -/

/-- Where `follow` stands. -/
inductive Phase where
  /-- The top of the loop. -/
  | starting
  /-- Reading the tagged kinds: who has not come to the end of what it has stored,
      and whether a relay list was stored on the way. -/
  | priming (waiting : List String) (namedRelays : Bool)
  /-- The priming subscription is closed. -/
  | primed (namedRelays : Bool)
  | live
  /-- Waiting to try again. -/
  | resting
  | stopped
  deriving DecidableEq

/-- What the world does next. -/
inductive Signal where
  /-- The set is read at `now`, the dials answered, the cursors read at `later`; and
      the priming subscription opens or does not. -/
  | start (now later : Int) (answers : Nat → String → Bool) (opened : Bool)
  /-- The same for the subscription to every kind. -/
  | subscribe (now later : Int) (opened : Bool)
  /-- A relay sends an event, taken in at `now`; the set is read again at `later`. -/
  | event (relay : String) (e : Event) (now later : Int)
  | endOfStored (relay : String)
  | timeout
  | ended
  | woken
  | shutdown

/-- A filter sent to a relay, and whether in the priming subscription. -/
structure Asked where
  relay : String
  filter : Filter
  priming : Bool

/-- The run so far. -/
structure State (F : Type) where
  phase : Phase
  client : RelayClient
  db : Db F
  counts : Counts
  attempt : Nat
  /-- Everything sent in a subscription that opened. -/
  asked : List Asked
  touches : List Touch
  /-- How often the subscription was rebuilt because the relays changed. -/
  restarts : Nat
  /-- The seconds waited since a subscription last opened. -/
  waits : List Nat

/-- `named_relays`: a relay list was stored. -/
def namesRelays (e : Event) : IngestOutcome F → Bool
  | .stored => e.kind == relayListKind
  | _ => false

/-- The filters of a subscription, one by one. -/
def askedOf (priming : Bool) (targets : List (String × List Filter)) : List Asked :=
  targets.flatMap fun target => target.2.map fun filter => ⟨target.1, filter, priming⟩

namespace State

/-- `Sync::rediscover`: nothing is re-read unless discovery is on. -/
def rediscover (S : Station) (now : Int) (s : State F) : Bool × State F :=
  if S.settings.discoverRelays then
    let client := s.client.reconfigure (connectionSet S.settings now s.db).1
    (!(client.unattached S.parseUrl).isEmpty, {
      s with
      client
      db := (connectionSet S.settings now s.db).2
      touches := s.touches ++ [.connect S.settings now] })
  else (false, s)

/-- One event taken from a subscription. -/
def take (X : Externals F) (S : Station) (relay : String) (e : Event) (now : Int)
    (s : State F) : Bool × State F :=
  let result := Pipeline.ingest X S.policy ⟨e, relay, now⟩ s.db
  (namesRelays e result.1, {
    s with
    db := result.2
    counts := s.counts.record result.1
    touches := s.touches ++ [.ingest ⟨e, relay, now⟩] })

/-- The stream ended, or no relay would take the subscription: wait, then try again. -/
def rest (s : State F) : State F :=
  { s with
    phase := .resting
    attempt := s.attempt + 1
    waits := s.waits ++ [backoff (s.attempt + 1)] }

/-- `Interrupted::RelaysChanged` and `Priming::RelaysChanged`. -/
def restart (s : State F) : State F :=
  { s with phase := .starting, restarts := s.restarts + 1 }

/-- The priming loop goes on while anyone is waited for. -/
def await (waiting : List String) (namedRelays : Bool) (s : State F) : State F :=
  { s with
    phase := if waiting.isEmpty then .primed namedRelays else .priming waiting namedRelays }

end State

namespace Station

/-- The top of the loop: `rediscover`, `reattach` and the first half of `prime`. -/
def start (S : Station) (now later : Int) (answers : Nat → String → Bool) (opened : Bool)
    (s : State F) : State F :=
  let s := (s.rediscover S now).2
  let s := { s with client := s.client.reattach ⟨S.parseUrl, answers⟩ }
  let targets := S.targets taggedKinds later s.client s.db
  let s := { s with db := targets.2 }
  if opened then
    { s with asked := s.asked ++ askedOf true targets.1 }.await (targets.1.map Prod.fst) false
  else { s with phase := .primed false }

/-- The end of `prime`, and the subscription to every kind. -/
def subscribe (S : Station) (now later : Int) (opened namedRelays : Bool) (s : State F) :
    State F :=
  let (changed, s) := if namedRelays then s.rediscover S now else (false, s)
  if changed then s.restart
  else
    let targets := S.targets indexedKinds later s.client s.db
    let s := { s with db := targets.2 }
    if opened then
      { s with
        phase := .live, attempt := 0, waits := []
        asked := s.asked ++ askedOf false targets.1 }
    else s.rest

/-- An event of the live subscription. -/
def deliver (X : Externals F) (S : Station) (relay : String) (e : Event) (now later : Int)
    (s : State F) : State F :=
  let (named, s) := s.take X S relay e now
  if named then
    let (changed, s) := s.rediscover S later
    if changed then s.restart else s
  else s

/-- One step; `none` when the signal is not one `follow` listens for where it stands. -/
def step (X : Externals F) (S : Station) (s : State F) : Signal → Option (State F)
  | .start now later answers opened =>
      match s.phase with
      | .starting => some (S.start now later answers opened s)
      | _ => none
  | .subscribe now later opened =>
      match s.phase with
      | .primed namedRelays => some (S.subscribe now later opened namedRelays s)
      | _ => none
  | .event relay e now later =>
      match s.phase with
      | .priming waiting namedRelays =>
          let (named, s) := s.take X S relay e now
          some { s with phase := .priming waiting (namedRelays || named) }
      | .live => some (S.deliver X relay e now later s)
      | _ => none
  | .endOfStored relay =>
      match s.phase with
      | .priming waiting namedRelays =>
          some (s.await (waiting.filter fun other => other != relay) namedRelays)
      | .live => some s
      | _ => none
  | .timeout =>
      match s.phase with
      | .priming _ namedRelays => some { s with phase := .primed namedRelays }
      | _ => none
  | .ended =>
      match s.phase with
      | .priming _ namedRelays => some { s with phase := .primed namedRelays }
      | .live => some s.rest
      | _ => none
  | .woken =>
      match s.phase with
      | .resting => some { s with phase := .starting }
      | _ => none
  | .shutdown =>
      match s.phase with
      | .priming _ _ => some { s with phase := .stopped }
      | .live => some { s with phase := .stopped }
      | .resting => some { s with phase := .stopped }
      | _ => none

/-- A run: one signal after another. -/
def follow (X : Externals F) (S : Station) : List Signal → State F → Option (State F)
  | [], s => some s
  | signal :: rest, s => (S.step X s signal).bind (S.follow X rest)

/-- `follow` begins here. -/
def begin (client : RelayClient) (db : Db F) : State F :=
  ⟨.starting, client, db, {}, 0, [], [], 0, []⟩

end Station

/-! ## What one step can do -/

/-- **THE STEPS OF A RUN**, each where it can happen. -/
inductive Stepped (X : Externals F) (S : Station) (s : State F) : Signal → State F → Prop where
  | started {now later answers opened} (h : s.phase = .starting) :
      Stepped X S s (.start now later answers opened) (S.start now later answers opened s)
  | subscribed {now later opened namedRelays} (h : s.phase = .primed namedRelays) :
      Stepped X S s (.subscribe now later opened) (S.subscribe now later opened namedRelays s)
  | primingEvent {relay e now later waiting namedRelays}
      (h : s.phase = .priming waiting namedRelays) :
      Stepped X S s (.event relay e now later) {
        (s.take X S relay e now).2 with
        phase := .priming waiting (namedRelays || (s.take X S relay e now).1) }
  | liveEvent {relay e now later} (h : s.phase = .live) :
      Stepped X S s (.event relay e now later) (S.deliver X relay e now later s)
  | replayed {relay waiting namedRelays} (h : s.phase = .priming waiting namedRelays) :
      Stepped X S s (.endOfStored relay)
        (s.await (waiting.filter fun other => other != relay) namedRelays)
  | idle {relay} (h : s.phase = .live) : Stepped X S s (.endOfStored relay) s
  | timedOut {waiting namedRelays} (h : s.phase = .priming waiting namedRelays) :
      Stepped X S s .timeout { s with phase := .primed namedRelays }
  | primingEnded {waiting namedRelays} (h : s.phase = .priming waiting namedRelays) :
      Stepped X S s .ended { s with phase := .primed namedRelays }
  | liveEnded (h : s.phase = .live) : Stepped X S s .ended s.rest
  | woke (h : s.phase = .resting) : Stepped X S s .woken { s with phase := .starting }
  | stopped : Stepped X S s .shutdown { s with phase := .stopped }

theorem stepped {S : Station} {s s' : State F} {signal : Signal}
    (h : S.step X s signal = some s') : Stepped X S s signal s' := by
  cases signal with
  | start now later answers opened =>
      rw [Station.step] at h
      split at h
      · rename_i hphase
        cases h
        exact .started hphase
      · exact nomatch h
  | subscribe now later opened =>
      rw [Station.step] at h
      split at h
      · rename_i namedRelays hphase
        cases h
        exact .subscribed hphase
      · exact nomatch h
  | event relay e now later =>
      rw [Station.step] at h
      split at h
      · rename_i waiting namedRelays hphase
        cases h
        exact .primingEvent hphase
      · rename_i hphase
        cases h
        exact .liveEvent hphase
      · exact nomatch h
  | endOfStored relay =>
      rw [Station.step] at h
      split at h
      · rename_i waiting namedRelays hphase
        cases h
        exact .replayed hphase
      · rename_i hphase
        cases h
        exact .idle hphase
      · exact nomatch h
  | timeout =>
      rw [Station.step] at h
      split at h
      · rename_i waiting namedRelays hphase
        cases h
        exact .timedOut hphase
      · exact nomatch h
  | ended =>
      rw [Station.step] at h
      split at h
      · rename_i waiting namedRelays hphase
        cases h
        exact .primingEnded hphase
      · rename_i hphase
        cases h
        exact .liveEnded hphase
      · exact nomatch h
  | woken =>
      rw [Station.step] at h
      split at h
      · rename_i hphase
        cases h
        exact .woke hphase
      · exact nomatch h
  | shutdown =>
      rw [Station.step] at h
      split at h
      · cases h
        exact .stopped
      · cases h
        exact .stopped
      · cases h
        exact .stopped
      · exact nomatch h

theorem follow_concat {S : Station} {signals : List Signal} {signal : Signal} {s s' : State F}
    (h : S.follow X (signals ++ [signal]) s = some s') :
    ∃ q, S.follow X signals s = some q ∧ Stepped X S q signal s' := by
  induction signals generalizing s with
  | nil =>
      obtain ⟨q, hq, heq⟩ := Option.bind_eq_some_iff.mp h
      cases heq
      exact ⟨s, rfl, stepped hq⟩
  | cons first rest ih =>
      obtain ⟨q, hq, hrest⟩ := Option.bind_eq_some_iff.mp h
      obtain ⟨r, hr, hstep⟩ := ih hrest
      refine ⟨r, ?_, hstep⟩
      rw [Station.follow, hq]
      exact hr

/-- **INDUCTION OVER A RUN**: what holds at its start and is kept by every step holds
    in every state it reaches. -/
theorem follow_induction {S : Station} {I : State F → Prop} {signals : List Signal}
    {s s' : State F} (hbegin : I s) (hstep : ∀ s signal s', I s → Stepped X S s signal s' → I s')
    (h : S.follow X signals s = some s') : I s' := by
  induction signals using List.reverseRecOn generalizing s' with
  | nil =>
      cases h
      exact hbegin
  | append_singleton signals signal ih =>
      obtain ⟨q, hq, hlast⟩ := follow_concat h
      exact hstep q signal s' (ih hq) hlast

/-! ## Reading the cursors -/

section Targets

variable {S : Station} {kinds : List UInt16} {vouched : List String} {now : Int}

/-- Two databases that differ in what was recorded of the kinds asked for. -/
def SameButKinds (db db' : Db F) : Prop := ∃ kinds, db' = { db with indexedKinds := kinds }

theorem SameButKinds.refl (db : Db F) : SameButKinds db db := ⟨db.indexedKinds, rfl⟩

theorem SameButKinds.trans {db db' db'' : Db F} (h : SameButKinds db db')
    (h' : SameButKinds db' db'') : SameButKinds db db'' := by
  obtain ⟨kinds, rfl⟩ := h
  obtain ⟨kinds', rfl⟩ := h'
  exact ⟨kinds', rfl⟩

theorem filter_same (vouched : List String) (now : Int) (relay : String) (kind : UInt16)
    (db : Db F) :
    SameButKinds db (S.filter relay kind vouched now db).2 := by
  rw [Station.filter]
  split
  · exact SameButKinds.refl db
  · exact ⟨_, rfl⟩

/-- What a filter made for a relay asks for. -/
structure AsksFor (S : Station) (vouched : List String) (kind : UInt16) (filter : Filter) :
    Prop where
  asked : filter.kind = kind
  unbounded : filter.until' = none ∧ filter.limit = none
  tagged : untaggedKinds.contains kind = false → filter.authors = S.authors
  untagged : untaggedKinds.contains kind = true →
    filter.authors = vouched ∧ vouched ≠ []

theorem filter_asks {relay : String} {kind : UInt16} {db : Db F} {filter : Filter}
    (h : (S.filter relay kind vouched now db).1 = some filter) :
    AsksFor S vouched kind filter := by
  rw [Station.filter] at h
  split at h
  · cases h
  · rename_i made hmade
    cases h
    have hopen := Sync.until_onwards
      (resumeFrom ((S.follower relay).cursor kind db) S.overlap)
    rw [forKind] at hmade
    by_cases huntagged : untaggedKinds.contains kind = true
    · rw [if_pos huntagged] at hmade
      by_cases hempty : vouched.isEmpty = true
      · rw [if_pos hempty] at hmade
        cases hmade
      · rw [if_neg hempty] at hmade
        cases hmade
        exact {
          asked := rfl
          unbounded := ⟨hopen, rfl⟩
          tagged := fun htagged => absurd (huntagged.symm.trans htagged) (by decide)
          untagged := fun _ => ⟨rfl, fun hnil => hempty (by rw [hnil]; rfl)⟩ }
    · rw [if_neg huntagged] at hmade
      cases hmade
      exact {
        asked := rfl
        unbounded := ⟨hopen, rfl⟩
        tagged := fun _ => rfl
        untagged := fun h => absurd h huntagged }

theorem filters_spec (kinds : List UInt16) (vouched : List String) (now : Int)
    (relay : String) (db : Db F) :
    SameButKinds db (S.filters relay vouched now kinds db).2
      ∧ ∀ filter ∈ (S.filters relay vouched now kinds db).1,
        ∃ kind ∈ kinds, AsksFor S vouched kind filter := by
  induction kinds generalizing db with
  | nil => exact ⟨SameButKinds.refl db, fun filter h => nomatch h⟩
  | cons kind rest ih =>
      have hsame := filter_same (S := S) vouched now relay kind db
      rw [Station.filters]
      cases hfilter : S.filter relay kind vouched now db with
      | mk made db' =>
          rw [hfilter] at hsame
          obtain ⟨hrest, hasks⟩ := ih db'
          have hlater : ∀ filter ∈ (S.filters relay vouched now rest db').1,
              ∃ k ∈ kind :: rest, AsksFor S vouched k filter := by
            intro filter hmem
            obtain ⟨k, hk, hask⟩ := hasks filter hmem
            exact ⟨k, List.mem_cons_of_mem _ hk, hask⟩
          cases made with
          | none => exact ⟨hsame.trans hrest, hlater⟩
          | some filter =>
              refine ⟨hsame.trans hrest, fun other hmem => ?_⟩
              rcases List.mem_cons.mp hmem with rfl | hmem
              · exact ⟨kind, List.mem_cons_self, filter_asks (congrArg Prod.fst hfilter)⟩
              · exact hlater other hmem

theorem targetsFrom_spec (kinds : List UInt16) (vouched : List String) (now : Int)
    (relays : List String) (db : Db F) :
    SameButKinds db (S.targetsFrom kinds vouched now relays db).2
      ∧ ∀ target ∈ (S.targetsFrom kinds vouched now relays db).1, target.1 ∈ relays
        ∧ ∀ filter ∈ target.2, ∃ kind ∈ kinds, AsksFor S vouched kind filter := by
  induction relays generalizing db with
  | nil => exact ⟨SameButKinds.refl db, fun target h => nomatch h⟩
  | cons relay rest ih =>
      obtain ⟨hsame, hasks⟩ := filters_spec (S := S) kinds vouched now relay db
      obtain ⟨hrest, htargets⟩ := ih (S.filters relay vouched now kinds db).2
      refine ⟨hsame.trans hrest, fun target hmem => ?_⟩
      have hlater : ∀ target ∈ (S.targetsFrom kinds vouched now rest
          (S.filters relay vouched now kinds db).2).1, target.1 ∈ relay :: rest
            ∧ ∀ filter ∈ target.2, ∃ kind ∈ kinds, AsksFor S vouched kind filter :=
        fun target hmem =>
          ⟨List.mem_cons_of_mem _ (htargets target hmem).1, (htargets target hmem).2⟩
      rw [Station.targetsFrom] at hmem
      dsimp only at hmem
      by_cases hempty : (S.filters relay vouched now kinds db).1.isEmpty = true
      · rw [if_pos hempty] at hmem
        exact hlater target hmem
      · rw [if_neg hempty] at hmem
        rcases List.mem_cons.mp hmem with rfl | hmem
        · exact ⟨List.mem_cons_self, hasks⟩
        · exact hlater target hmem

theorem mem_askedOf {priming : Bool} {targets : List (String × List Filter)} {asked : Asked} :
    asked ∈ askedOf priming targets ↔ asked.priming = priming
      ∧ ∃ target ∈ targets, asked.relay = target.1 ∧ asked.filter ∈ target.2 := by
  rw [askedOf, List.mem_flatMap]
  constructor
  · rintro ⟨target, htarget, hasked⟩
    obtain ⟨filter, hfilter, rfl⟩ := List.mem_map.mp hasked
    exact ⟨rfl, target, htarget, rfl, hfilter⟩
  · rintro ⟨rfl, target, htarget, hrelay, hfilter⟩
    refine ⟨target, htarget, List.mem_map.mpr ⟨asked.filter, hfilter, ?_⟩⟩
    rw [← hrelay]

end Targets

end Dialling
