import Bestiario.Following
import Bestiario.Discovery

/-! # What holds wherever a follower stands

    Every state `follow` reaches, whatever the relays do and wherever it is cut: the
    database is what the events taken in make of it, an untagged kind is asked of
    the vouched only and after the tagged ones have been replayed, and the loop
    comes round at once only when a relay list was stored. -/

namespace Dialling

open Keyed Wire Parse Repo Pipeline
open History (Counts)
open Sync (Filter platformProven)

variable {F : Type} {X : Externals F} {P : Policy}

/-! ## What was recorded of the kinds is read by nothing here -/

theorem persist_kinds {e : Event} {p : Parsed F} (db : Db F) (kinds : Table UInt16 IndexedKind) :
    persist X e p { db with indexedKinds := kinds }
      = { persist X e p db with indexedKinds := kinds } := by
  have hsight : sighted e { db with indexedKinds := kinds }
      = { sighted e db with indexedKinds := kinds } := by
    rw [sighted, sighted]
    cases instanceName e with
    | none => rfl
    | some name => rfl
  unfold persist
  rw [hsight]
  cases p with
  | order v =>
      dsimp only
      rw [Derived.refreshOrder_eq, Derived.refreshOrder_eq]
      rfl
  | devFee fee => rfl
  | dispute v =>
      dsimp only
      rw [Derived.refreshDispute_eq, Derived.refreshDispute_eq]
      rfl
  | info info => rfl
  | rates snapshot => rfl
  | relayList list =>
      dsimp only
      rw [upserts_eq, upserts_eq]

theorem ingest_kinds (c : Call) (db : Db F) (kinds : Table UInt16 IndexedKind) :
    Pipeline.ingest X P c { db with indexedKinds := kinds }
      = ((Pipeline.ingest X P c db).1,
        { (Pipeline.ingest X P c db).2 with indexedKinds := kinds }) := by
  have hvouched : vouchedFor P c.event { db with indexedKinds := kinds }
      = vouchedFor P c.event db := rfl
  have hredundant : ∀ heartbeat, Heartbeats.isRedundant c.event heartbeat
      { db with indexedKinds := kinds } = Heartbeats.isRedundant c.event heartbeat db := by
    intro heartbeat
    cases heartbeat with
    | announcement => rfl
    | rates publishedAt => rfl
    | none => rfl
  rw [Pipeline.ingest, Pipeline.ingest, hvouched]
  cases admission X P c.event with
  | some rejection => rfl
  | none =>
      cases vouchedFor P c.event db with
      | some rejection => rfl
      | none =>
          cases parse X c.event with
          | error rejection => rfl
          | ok parsed =>
              dsimp only
              rw [hredundant]
              cases Heartbeats.isRedundant c.event (parsedHeartbeat parsed) db with
              | true => rfl
              | false =>
                  rw [if_neg Bool.false_ne_true, if_neg Bool.false_ne_true, Events.insertIfNew,
                    Events.insertIfNew]
                  dsimp only
                  cases db.events[c.record.id]?.isNone with
                  | false => rfl
                  | true =>
                      dsimp only
                      rw [persist_kinds { db with
                        events := db.events.insertIfNew c.record.id c.record }]
                      rfl

theorem SameButKinds.ingest {db db' : Db F} (h : SameButKinds db db') (c : Call) :
    (Pipeline.ingest X P c db').1 = (Pipeline.ingest X P c db).1
      ∧ SameButKinds (Pipeline.ingest X P c db).2 (Pipeline.ingest X P c db').2 := by
  obtain ⟨kinds, rfl⟩ := h
  rw [ingest_kinds]
  exact ⟨rfl, kinds, rfl⟩

theorem SameButKinds.connectionSet {db db' : Db F} (h : SameButKinds db db')
    (S : NostrSettings) (now : Int) :
    SameButKinds (Dialling.connectionSet S now db).2 (Dialling.connectionSet S now db').2 := by
  obtain ⟨kinds, rfl⟩ := h
  rw [connectionSet_db, connectionSet_db]
  exact ⟨kinds, rfl⟩

/-! ## The run, told by its touches -/

/-- The database is what the touches leave, and the counts what they count. -/
structure Accounted (X : Externals F) (S : Station) (db : Db F) (s : State F) : Prop where
  left : SameButKinds (touched X S.policy s.touches db) s.db
  counted : s.counts = tally X S.policy s.touches db

section Accounted

variable {S : Station} {db : Db F} {s s' : State F} {signal : Signal}

theorem Accounted.rediscover (h : Accounted X S db s) (now : Int) :
    Accounted X S db (s.rediscover S now).2 := by
  rw [State.rediscover]
  by_cases hdiscover : S.settings.discoverRelays = true
  · rw [if_pos hdiscover]
    exact {
      left := by
        show SameButKinds (touched X S.policy (s.touches ++ [_]) db) (connectionSet _ now s.db).2
        rw [touched_concat]
        exact h.left.connectionSet S.settings now
      counted := by
        show s.counts = tally X S.policy (s.touches ++ [_]) db
        rw [tally_append, ← h.counted]
        rfl }
  · rw [if_neg hdiscover]
    exact h

theorem Accounted.take (h : Accounted X S db s) (relay : String) (e : Event) (now : Int) :
    Accounted X S db (s.take X S relay e now).2 := by
  obtain ⟨houtcome, hleft⟩ := h.left.ingest (X := X) (P := S.policy) ⟨e, relay, now⟩
  exact {
    left := by
      show SameButKinds (touched X S.policy (s.touches ++ [_]) db) _
      rw [touched_concat]
      exact hleft
    counted := by
      show s.counts.record (Pipeline.ingest X S.policy ⟨e, relay, now⟩ s.db).1
        = tally X S.policy (s.touches ++ [_]) db
      rw [tally_append, ← h.counted, record_eq, houtcome]
      rfl }

/-- Reading the cursors accounts for nothing. -/
theorem Accounted.same (h : Accounted X S db s) (hdb : SameButKinds s.db s'.db)
    (hcounts : s'.counts = s.counts) (htouches : s'.touches = s.touches) :
    Accounted X S db s' where
  left := by
    rw [htouches]
    exact h.left.trans hdb
  counted := by
    rw [htouches, hcounts]
    exact h.counted

/-- **STEP**. -/
theorem Accounted.stepped (h : Accounted X S db s) (hstep : Stepped X S s signal s') :
    Accounted X S db s' := by
  cases hstep with
  | @started now later answers opened _ =>
      have hread := h.rediscover now
      have hsame := (targetsFrom_spec (S := S) taggedKinds
        (S.vouched (s.rediscover S now).2.db) later
        (((s.rediscover S now).2.client.reattach ⟨S.parseUrl, answers⟩).relays)
        (s.rediscover S now).2.db).1
      rw [Station.start]
      dsimp only
      by_cases hopened : opened = true
      · rw [if_pos hopened]
        exact hread.same hsame rfl rfl
      · rw [if_neg hopened]
        exact hread.same hsame rfl rfl
  | @subscribed now later opened namedRelays _ =>
      have hboth : ∀ q : State F, Accounted X S db q → Accounted X S db
          (let targets := S.targets indexedKinds later q.client q.db
           let q := { q with db := targets.2 }
           if opened then { q with
            phase := .live, attempt := 0, waits := []
            asked := q.asked ++ askedOf false targets.1 }
           else q.rest) := by
        intro q hq
        have hsame := (targetsFrom_spec (S := S) indexedKinds (S.vouched q.db) later
          q.client.relays q.db).1
        dsimp only
        by_cases hopened : opened = true
        · rw [if_pos hopened]
          exact hq.same hsame rfl rfl
        · rw [if_neg hopened]
          exact hq.same hsame rfl rfl
      rw [Station.subscribe]
      cases namedRelays with
      | false => exact hboth s h
      | true =>
          have hread := h.rediscover now
          dsimp only
          rw [if_pos rfl]
          by_cases hchanged : (s.rediscover S now).1 = true
          · rw [if_pos hchanged]
            exact hread.same (SameButKinds.refl _) rfl rfl
          · rw [if_neg hchanged]
            exact hboth _ hread
  | @primingEvent relay e now later _ _ _ =>
      exact (h.take relay e now).same (SameButKinds.refl _) rfl rfl
  | @liveEvent relay e now later _ =>
      have htook := h.take relay e now
      have hread := htook.rediscover later
      rw [Station.deliver]
      dsimp only
      split_ifs
      · exact hread.same (SameButKinds.refl _) rfl rfl
      · exact hread
      · exact htook
  | replayed _ => exact h.same (SameButKinds.refl _) rfl rfl
  | idle _ => exact h
  | timedOut _ => exact h.same (SameButKinds.refl _) rfl rfl
  | primingEnded _ => exact h.same (SameButKinds.refl _) rfl rfl
  | liveEnded _ => exact h.same (SameButKinds.refl _) rfl rfl
  | woke _ => exact h.same (SameButKinds.refl _) rfl rfl
  | stopped => exact h.same (SameButKinds.refl _) rfl rfl

end Accounted

/-! ## A run of one turn and a half -/

/-- One relay is followed, and whatever it names. -/
def oneStation : Station where
  settings := ⟨["wss://a"], true⟩
  policy := ⟨[Convergence.alice], false, []⟩
  authors := []
  listed := [Convergence.alice]
  overlap := 600
  parseKey := some
  parseUrl := some

/-- The client it begins with. -/
def oneClient : RelayClient := ⟨["wss://a"], ["wss://a"], List.nodup_singleton _⟩

/-- The relay is primed and followed, and sends a list that names another; the turn that
    follows finds nobody who takes a subscription. -/
def oneStory : List Signal := [
  .start 1785600000 1785600000 (fun _ _ => true) true,
  .endOfStored "wss://a",
  .subscribe 1785600001 1785600001 true,
  .event "wss://a" (relayListOf "1" "wss://b") 1785600002 1785600002,
  .start 1785600003 1785600003 (fun _ _ => true) true,
  .timeout]

theorem oneStory_run : ∃ s, oneStation.follow oneList oneStory (Station.begin oneClient Db.empty)
      = some s ∧ s.phase = .primed false ∧ s.restarts = 1 ∧ s.counts.stored = 1
      ∧ ∃ asked ∈ s.asked, asked.filter.kind = relayListKind := by
  have hrun : ((oneStation.follow oneList oneStory (Station.begin oneClient Db.empty)).map fun s =>
      (s.phase, s.restarts, s.counts.stored,
        s.asked.any fun asked => asked.filter.kind == relayListKind))
      = some (.primed false, 1, 1, true) := by decide +kernel
  obtain ⟨s, hs, heq⟩ := Option.map_eq_some_iff.mp hrun
  obtain ⟨hphase, hrestarts, hstored, hasked⟩ : s.phase = .primed false ∧ s.restarts = 1
      ∧ s.counts.stored = 1
      ∧ (s.asked.any fun asked => asked.filter.kind == relayListKind) = true := by
    simpa using heq
  obtain ⟨asked, hmem, hkind⟩ := List.any_eq_true.mp hasked
  exact ⟨s, hs, hphase, hrestarts, hstored, asked, hmem, beq_iff_eq.mp hkind⟩

/-- **AN INTERRUPTED RUN HAS RECORDED EVERYTHING IT STORED.**  Wherever a run is cut, the
    events it has taken in are counted once each, those counted as stored are exactly
    the readable ones the archive has gained, and but for what it recorded of the
    kinds it asked for the database is what its events and connection sets make of
    the one it began with. -/
theorem interrupted_on_disk {X : Externals F} {S : Station} {client : RelayClient} {db : Db F}
    {signals : List Signal} {s : State F}
    (h : S.follow X signals (Station.begin client db) = some s) :
    total s.counts = handedOver s.touches
      ∧ (readable X everyEvent s.db).size = (readable X everyEvent db).size + s.counts.stored
      ∧ ∃ kinds, s.db = { touched X S.policy s.touches db with indexedKinds := kinds } := by
  have hbegin : Accounted X S db (Station.begin client db) :=
    ⟨SameButKinds.refl db, rfl⟩
  have hall := follow_induction hbegin (fun _ _ _ hs hstep => hs.stepped hstep) h
  obtain ⟨kinds, hkinds⟩ := hall.left
  refine ⟨?_, ?_, kinds, hkinds⟩
  · rw [hall.counted, total_tally]
  · rw [hall.counted, hkinds, ← readable_touched]
    rfl

/-- One list was stored, and the archive is one event larger. -/
theorem one_story_on_disk : ∃ s,
    oneStation.follow oneList oneStory (Station.begin oneClient Db.empty) = some s
      ∧ (readable oneList everyEvent s.db).size
        = (readable oneList everyEvent (Db.empty : Db Int)).size + 1 := by
  obtain ⟨s, hs, -, -, hstored, -⟩ := oneStory_run
  exact ⟨s, hs, by rw [(interrupted_on_disk hs).2.1, hstored]⟩

/-! ## Who is asked about what -/

section Asked

variable {S : Station} {db db' : Db F} {s s' : State F} {signal : Signal} {key : String}

theorem mem_vouched : key ∈ S.vouched db
    ↔ key ∈ S.listed ∨ ∃ pubkey ∈ platformProven db, S.parseKey pubkey = some key :=
  Sync.mem_foldl_vouch (platformProven db) S.listed

/-- Whom the later database vouches for includes whom the earlier one did. -/
def Vouches (S : Station) (db db' : Db F) : Prop := ∀ key ∈ S.vouched db, key ∈ S.vouched db'

theorem Vouches.of_proven
    (h : ∀ pubkey ∈ platformProven db, pubkey ∈ platformProven db') : Vouches S db db' := by
  intro key hkey
  rw [mem_vouched] at hkey ⊢
  rcases hkey with hlisted | ⟨pubkey, hproven, hparse⟩
  · exact Or.inl hlisted
  · exact Or.inr ⟨pubkey, h pubkey hproven, hparse⟩

theorem SameButKinds.vouches (h : SameButKinds db db') : Vouches S db db' := by
  obtain ⟨kinds, rfl⟩ := h
  exact Vouches.of_proven fun pubkey hproven => hproven

theorem vouches_rediscover (s : State F) (now : Int) :
    Vouches S s.db (s.rediscover S now).2.db := by
  rw [State.rediscover]
  by_cases hdiscover : S.settings.discoverRelays = true
  · rw [if_pos hdiscover]
    refine Vouches.of_proven fun pubkey hproven => ?_
    show pubkey ∈ platformProven (connectionSet S.settings now s.db).2
    rw [connectionSet_db]
    exact hproven
  · rw [if_neg hdiscover]
    exact fun key hkey => hkey

theorem vouches_take (s : State F) (relay : String) (e : Event) (now : Int) :
    Vouches S s.db (s.take X S relay e now).2.db :=
  Vouches.of_proven fun _ hproven => Sync.platformProven_ingest hproven

/-- A filter that was sent, as the archive of now can answer for it. -/
structure Entitled (S : Station) (db : Db F) (asked : Asked) : Prop where
  unbounded : asked.filter.until' = none ∧ asked.filter.limit = none
  indexed : asked.filter.kind ∈ indexedKinds
  priming : asked.priming = true → untaggedKinds.contains asked.filter.kind = false
  tagged : untaggedKinds.contains asked.filter.kind = false → asked.filter.authors = S.authors
  untagged : untaggedKinds.contains asked.filter.kind = true →
    asked.filter.authors ≠ [] ∧ ∀ key ∈ asked.filter.authors, key ∈ S.vouched db

theorem Entitled.later {asked : Asked} (h : Entitled S db asked) (hdb : Vouches S db db') :
    Entitled S db' asked where
  unbounded := h.unbounded
  indexed := h.indexed
  priming := h.priming
  tagged := h.tagged
  untagged huntagged := ⟨(h.untagged huntagged).1,
    fun key hkey => hdb key ((h.untagged huntagged).2 key hkey)⟩

theorem mem_taggedKinds {kind : UInt16} :
    kind ∈ taggedKinds ↔ kind ∈ indexedKinds ∧ untaggedKinds.contains kind = false := by
  rw [taggedKinds, List.mem_filter, Bool.not_eq_true']

/-- What a subscription asks, the archive it was made from answers for. -/
theorem entitled_of_targets {priming : Bool} {kinds : List UInt16} {now : Int}
    {client : RelayClient} {asked : Asked} (hindexed : ∀ kind ∈ kinds, kind ∈ indexedKinds)
    (hpriming : priming = true → ∀ kind ∈ kinds, untaggedKinds.contains kind = false)
    (h : asked ∈ askedOf priming (S.targets kinds now client db).1) : Entitled S db asked := by
  obtain ⟨rfl, target, htarget, -, hfilter⟩ := mem_askedOf.mp h
  obtain ⟨kind, hkind, hasks⟩ := ((targetsFrom_spec _ _ _ client.relays db).2 target htarget).2
    asked.filter hfilter
  have heq := hasks.asked
  exact {
    unbounded := hasks.unbounded
    indexed := by
      rw [heq]
      exact hindexed kind hkind
    priming := by
      intro hp
      rw [heq]
      exact hpriming hp kind hkind
    tagged := by
      intro htagged
      rw [heq] at htagged
      exact hasks.tagged htagged
    untagged := by
      intro huntagged
      rw [heq] at huntagged
      obtain ⟨hauthors, hne⟩ := hasks.untagged huntagged
      rw [hauthors]
      exact ⟨hne, fun key hkey => hkey⟩ }

/-- Everything sent so far. -/
def Answerable (S : Station) (s : State F) : Prop := ∀ asked ∈ s.asked, Entitled S s.db asked

theorem Answerable.later (h : Answerable S s) (hasked : s'.asked = s.asked)
    (hdb : Vouches S s.db s'.db) : Answerable S s' := by
  intro asked hmem
  rw [hasked] at hmem
  exact (h asked hmem).later hdb

theorem Answerable.rediscover (h : Answerable S s) (now : Int) :
    Answerable S (s.rediscover S now).2 := by
  refine h.later ?_ (vouches_rediscover s now)
  rw [State.rediscover]
  by_cases hdiscover : S.settings.discoverRelays = true
  · rw [if_pos hdiscover]
  · rw [if_neg hdiscover]

/-- A subscription made of the database and sent. -/
theorem Answerable.send (h : Answerable S s) {priming : Bool} {kinds : List UInt16} {now : Int}
    {client : RelayClient} (hindexed : ∀ kind ∈ kinds, kind ∈ indexedKinds)
    (hpriming : priming = true → ∀ kind ∈ kinds, untaggedKinds.contains kind = false)
    (hasked : s'.asked = s.asked ++ askedOf priming (S.targets kinds now client s.db).1)
    (hdb : s'.db = (S.targets kinds now client s.db).2) : Answerable S s' := by
  have hvouches : Vouches S s.db s'.db := by
    rw [hdb]
    exact (targetsFrom_spec _ _ _ client.relays s.db).1.vouches
  intro asked hmem
  rw [hasked] at hmem
  rcases List.mem_append.mp hmem with hold | hnew
  · exact (h asked hold).later hvouches
  · exact (entitled_of_targets hindexed hpriming hnew).later hvouches

/-- A subscription made of the database and refused. -/
theorem Answerable.refuse (h : Answerable S s) {kinds : List UInt16} {now : Int}
    {client : RelayClient} (hasked : s'.asked = s.asked)
    (hdb : s'.db = (S.targets kinds now client s.db).2) : Answerable S s' := by
  refine h.later hasked ?_
  rw [hdb]
  exact (targetsFrom_spec _ _ _ client.relays s.db).1.vouches

/-- **STEP**. -/
theorem Answerable.stepped (h : Answerable S s) (hstep : Stepped X S s signal s') :
    Answerable S s' := by
  have htake : ∀ relay e now, Answerable S (s.take X S relay e now).2 := fun relay e now =>
    h.later rfl (vouches_take s relay e now)
  cases hstep with
  | @started now later answers opened _ =>
      have hread := h.rediscover now
      rw [Station.start]
      dsimp only
      by_cases hopened : opened = true
      · rw [if_pos hopened]
        exact hread.send (fun kind hkind => (mem_taggedKinds.mp hkind).1)
          (fun _ kind hkind => (mem_taggedKinds.mp hkind).2) rfl rfl
      · rw [if_neg hopened]
        exact hread.refuse rfl rfl
  | @subscribed now later opened namedRelays _ =>
      have hboth : ∀ q : State F, Answerable S q → Answerable S
          (let targets := S.targets indexedKinds later q.client q.db
           let q := { q with db := targets.2 }
           if opened then { q with
            phase := .live, attempt := 0, waits := []
            asked := q.asked ++ askedOf false targets.1 }
           else q.rest) := by
        intro q hq
        dsimp only
        by_cases hopened : opened = true
        · rw [if_pos hopened]
          exact hq.send (fun kind hkind => hkind) (fun hp : false = true => nomatch hp) rfl rfl
        · rw [if_neg hopened]
          exact hq.refuse rfl rfl
      rw [Station.subscribe]
      cases namedRelays with
      | false => exact hboth s h
      | true =>
          dsimp only
          rw [if_pos rfl]
          by_cases hchanged : (s.rediscover S now).1 = true
          · rw [if_pos hchanged]
            exact h.rediscover now
          · rw [if_neg hchanged]
            exact hboth _ (h.rediscover now)
  | primingEvent _ => exact htake _ _ _
  | @liveEvent relay e now later _ =>
      rw [Station.deliver]
      dsimp only
      split_ifs
      · exact Answerable.rediscover (htake relay e now) later
      · exact Answerable.rediscover (htake relay e now) later
      · exact htake relay e now
  | replayed _ => exact h
  | idle _ => exact h
  | timedOut _ => exact h
  | primingEnded _ => exact h
  | liveEnded _ => exact h
  | woke _ => exact h
  | stopped => exact h

end Asked

/-- **AN UNTAGGED KIND IS ASKED OF THE VOUCHED ONLY.**  Of everything a run ever sends: a
    filter is for one indexed kind and has no end; in a priming subscription the kind
    is tagged; for a tagged kind the authors are the configured ones; and for an
    untagged kind there is an author, and each is one the operator lists or the archive
    of now has a tagged event of. -/
theorem asks_only_vouched {X : Externals F} {S : Station} {client : RelayClient} {db : Db F}
    {signals : List Signal} {s : State F}
    (h : S.follow X signals (Station.begin client db) = some s) (asked : Asked)
    (hasked : asked ∈ s.asked) :
    asked.filter.kind ∈ indexedKinds
      ∧ (asked.filter.until' = none ∧ asked.filter.limit = none)
      ∧ (asked.priming = true → untaggedKinds.contains asked.filter.kind = false)
      ∧ (untaggedKinds.contains asked.filter.kind = false → asked.filter.authors = S.authors)
      ∧ (untaggedKinds.contains asked.filter.kind = true → asked.filter.authors ≠ []
        ∧ ∀ key ∈ asked.filter.authors, key ∈ S.listed
          ∨ ∃ pubkey ∈ platformProven s.db, S.parseKey pubkey = some key) := by
  have hbegin : Answerable S (Station.begin client db) := fun _ hmem => nomatch hmem
  have hall := follow_induction (X := X) hbegin (fun _ _ _ hs hstep => hs.stepped hstep) h
  have hentitled := hall asked hasked
  refine ⟨hentitled.indexed, hentitled.unbounded, hentitled.priming, hentitled.tagged,
    fun huntagged => ⟨(hentitled.untagged huntagged).1, fun key hkey => ?_⟩⟩
  exact mem_vouched.mp ((hentitled.untagged huntagged).2 key hkey)

/-- The relay is asked for relay lists, and of somebody. -/
theorem one_story_asks : ∃ s asked,
    oneStation.follow oneList oneStory (Station.begin oneClient Db.empty) = some s
      ∧ asked ∈ s.asked ∧ asked.filter.kind = relayListKind ∧ asked.filter.authors ≠ [] := by
  obtain ⟨s, hs, -, -, -, asked, hmem, hkind⟩ := oneStory_run
  have huntagged : untaggedKinds.contains asked.filter.kind = true := by
    rw [hkind]
    rfl
  exact ⟨s, asked, hs, hmem, hkind,
    ((asks_only_vouched hs asked hmem).2.2.2.2 huntagged).1⟩

/-! ## Replayed before asked -/

/-- `start`. -/
def Signal.isStart : Signal → Bool
  | .start _ _ _ _ => true
  | _ => false

/-- The relays the priming subscription of a turn waits for. -/
def Station.awaited (S : Station) (now later : Int) (answers : Nat → String → Bool)
    (s : State F) : List String :=
  let s := (s.rediscover S now).2
  (S.targets taggedKinds later (s.client.reattach ⟨S.parseUrl, answers⟩) s.db).1.map Prod.fst

/-- Since the last turn began, with the relays it waits for and what came in since. -/
def SinceStart (X : Externals F) (S : Station) (s₀ : State F) (signals : List Signal)
    (holds : Bool → List Signal → List String → Prop) : Prop :=
  ∃ before now later answers opened middle q,
    signals = before ++ .start now later answers opened :: middle
      ∧ (∀ signal ∈ middle, signal.isStart = false)
      ∧ S.follow X before s₀ = some q
      ∧ holds opened middle (S.awaited now later answers q)

/-- Each awaited relay is still waited for, or has come to its end. -/
def Pending (waiting : List String) (_ : Bool) (middle : List Signal) (awaited : List String) :
    Prop :=
  ∀ relay ∈ awaited, relay ∈ waiting ∨ .endOfStored relay ∈ middle

/-- Nobody took the subscription, or it timed out or ended, or each awaited relay has
    come to the end of what it has stored. -/
def Primed (opened : Bool) (middle : List Signal) (awaited : List String) : Prop :=
  opened = false ∨ .timeout ∈ middle ∨ .ended ∈ middle
    ∨ ∀ relay ∈ awaited, .endOfStored relay ∈ middle

/-- What holds of the signals so far, by where the run stands. -/
def Replaying (X : Externals F) (S : Station) (s₀ : State F) (signals : List Signal) :
    Phase → Prop
  | .priming waiting _ => SinceStart X S s₀ signals (Pending waiting)
  | .primed _ => SinceStart X S s₀ signals Primed
  | _ => True

section Replay

variable {S : Station} {s₀ s s' : State F} {signals : List Signal} {signal : Signal}

theorem SinceStart.extend {holds : Bool → List Signal → List String → Prop}
    (holds' : Bool → List Signal → List String → Prop)
    (h : SinceStart X S s₀ signals holds) (hsignal : signal.isStart = false)
    (hholds : ∀ opened middle awaited, holds opened middle awaited →
      holds' opened (middle ++ [signal]) awaited) :
    SinceStart X S s₀ (signals ++ [signal]) holds' := by
  obtain ⟨before, now, later, answers, opened, middle, q, rfl, hnone, hfollow, hmiddle⟩ := h
  refine ⟨before, now, later, answers, opened, middle ++ [signal], q, ?_, ?_, hfollow,
    hholds opened middle _ hmiddle⟩
  · rw [List.append_assoc, List.cons_append]
  · intro other hother
    rcases List.mem_append.mp hother with hold | hlast
    · exact hnone other hold
    · rw [List.mem_singleton.mp hlast]
      exact hsignal

/-- A loop that awaits nobody is done. -/
theorem await_phase (waiting : List String) (namedRelays : Bool) (s : State F) :
    (waiting = [] ∧ (s.await waiting namedRelays).phase = .primed namedRelays)
      ∨ (s.await waiting namedRelays).phase = .priming waiting namedRelays := by
  rw [State.await]
  cases waiting with
  | nil => exact Or.inl ⟨rfl, rfl⟩
  | cons relay rest => exact Or.inr rfl

theorem replaying_step (hfollow : S.follow X signals s₀ = some s)
    (h : Replaying X S s₀ signals s.phase) (hstep : Stepped X S s signal s') :
    Replaying X S s₀ (signals ++ [signal]) s'.phase := by
  cases hstep with
  | @started now later answers opened _ =>
      have hbegun : ∀ holds : Bool → List Signal → List String → Prop,
          holds opened [] (S.awaited now later answers s) →
          SinceStart X S s₀ (signals ++ [.start now later answers opened]) holds := by
        intro holds hholds
        refine ⟨signals, now, later, answers, opened, [], s, rfl, ?_, hfollow, hholds⟩
        intro other hmem
        exact nomatch hmem
      rw [Station.start]
      dsimp only
      cases opened with
      | false => exact hbegun Primed (Or.inl rfl)
      | true =>
          rw [if_pos rfl]
          rcases await_phase (S.awaited now later answers s) false { (s.rediscover S now).2 with
            client := (s.rediscover S now).2.client.reattach ⟨S.parseUrl, answers⟩
            db := (S.targets taggedKinds later
              ((s.rediscover S now).2.client.reattach ⟨S.parseUrl, answers⟩)
              (s.rediscover S now).2.db).2
            asked := (s.rediscover S now).2.asked ++ askedOf true (S.targets taggedKinds later
              ((s.rediscover S now).2.client.reattach ⟨S.parseUrl, answers⟩)
              (s.rediscover S now).2.db).1 } with ⟨hempty, hphase⟩ | hphase
          · rw [Station.awaited] at hphase
            rw [hphase]
            refine hbegun Primed (Or.inr (Or.inr (Or.inr fun relay hrelay => ?_)))
            rw [hempty] at hrelay
            exact nomatch hrelay
          · rw [Station.awaited] at hphase
            rw [hphase]
            exact hbegun (Pending _) fun relay hrelay => Or.inl hrelay
  | @subscribed now later opened namedRelays _ =>
      have hphase : ∀ q : State F, ∀ opened,
          Replaying X S s₀ (signals ++ [.subscribe now later opened])
          (let targets := S.targets indexedKinds later q.client q.db
           let q := { q with db := targets.2 }
           if opened then { q with
            phase := .live, attempt := 0, waits := []
            asked := q.asked ++ askedOf false targets.1 }
           else q.rest).phase := by
        intro q opened
        cases opened with
        | true => exact trivial
        | false => exact trivial
      rw [Station.subscribe]
      cases namedRelays with
      | false => exact hphase s opened
      | true =>
          dsimp only
          rw [if_pos rfl]
          by_cases hchanged : (s.rediscover S now).1 = true
          · rw [if_pos hchanged]
            exact trivial
          · rw [if_neg hchanged]
            exact hphase _ opened
  | @primingEvent relay e now later waiting namedRelays hphase =>
      rw [hphase] at h
      refine SinceStart.extend (Pending waiting) h rfl fun _ _ _ hpending other hother => ?_
      exact (hpending other hother).imp_right (List.mem_append_left _)
  | @liveEvent relay e now later hphase =>
      rw [Station.deliver]
      dsimp only
      have hlive : (s.take X S relay e now).2.phase = .live := hphase
      have hread : ((s.take X S relay e now).2.rediscover S later).2.phase = .live := by
        rw [State.rediscover]
        split_ifs
        · exact hlive
        · exact hlive
      split_ifs
      · exact trivial
      · rw [hread]
        exact trivial
      · rw [hlive]
        exact trivial
  | @replayed relay waiting namedRelays hphase =>
      rw [hphase] at h
      have hpending : ∀ opened middle awaited, Pending waiting opened middle awaited →
          Pending (waiting.filter fun other => other != relay) opened
            (middle ++ [.endOfStored relay]) awaited := by
        intro _ middle awaited hpending other hother
        rcases hpending other hother with hwaiting | hdone
        · by_cases heq : other = relay
          · subst heq
            exact Or.inr (List.mem_append_right _ (List.mem_singleton_self _))
          · exact Or.inl (List.mem_filter.mpr ⟨hwaiting, bne_iff_ne.mpr heq⟩)
        · exact Or.inr (List.mem_append_left _ hdone)
      rcases await_phase (waiting.filter fun other => other != relay) namedRelays s with
        ⟨hempty, hdone⟩ | hmore
      · rw [hdone]
        refine SinceStart.extend Primed h rfl fun opened middle awaited hwaits => ?_
        refine Or.inr (Or.inr (Or.inr fun other hother => ?_))
        rcases hpending opened middle awaited hwaits other hother with hwaiting | hend
        · rw [hempty] at hwaiting
          exact nomatch hwaiting
        · exact hend
      · rw [hmore]
        exact SinceStart.extend _ h rfl hpending
  | idle hphase =>
      rw [hphase]
      exact trivial
  | @timedOut waiting namedRelays hphase =>
      rw [hphase] at h
      exact SinceStart.extend Primed h rfl fun _ _ _ _ =>
        Or.inr (Or.inl (List.mem_append_right _ (List.mem_singleton_self _)))
  | @primingEnded waiting namedRelays hphase =>
      rw [hphase] at h
      exact SinceStart.extend Primed h rfl fun _ _ _ _ =>
        Or.inr (Or.inr (Or.inl (List.mem_append_right _ (List.mem_singleton_self _))))
  | liveEnded _ => exact trivial
  | woke _ => exact trivial
  | stopped => exact trivial

theorem replaying {client : RelayClient} {db : Db F} {s : State F}
    (h : S.follow X signals (Station.begin client db) = some s) :
    Replaying X S (Station.begin client db) signals s.phase := by
  induction signals using List.reverseRecOn generalizing s with
  | nil =>
      cases h
      exact trivial
  | append_singleton signals signal ih =>
      obtain ⟨q, hq, hstep⟩ := follow_concat h
      exact replaying_step hq (ih hq) hstep

end Replay

/-- **UNTAGGED KINDS ARE ASKED FOR LAST.**  No run subscribes to every kind but after a
    turn, not yet used up by another, in which the relays asked for the tagged kinds
    have each come to the end of what they had stored, or thirty seconds passed, or
    the stream ended, or no relay would take the question. -/
theorem subscribed_after_replay {X : Externals F} {S : Station} {client : RelayClient}
    {db : Db F} {signals : List Signal} {now later : Int} {opened : Bool} {s : State F}
    (h : S.follow X (signals ++ [.subscribe now later opened]) (Station.begin client db)
      = some s) :
    ∃ before at' later' answers taken middle q,
      signals = before ++ .start at' later' answers taken :: middle
        ∧ (∀ signal ∈ middle, signal.isStart = false)
        ∧ S.follow X before (Station.begin client db) = some q
        ∧ (taken = false ∨ .timeout ∈ middle ∨ .ended ∈ middle
          ∨ ∀ relay ∈ S.awaited at' later' answers q, .endOfStored relay ∈ middle) := by
  obtain ⟨q, hq, hstep⟩ := follow_concat h
  have hreplay := replaying hq
  cases hstep with
  | subscribed hphase =>
      rw [hphase] at hreplay
      exact hreplay

/-- Nobody takes the second subscription; what came before it is a turn begun. -/
theorem one_story_subscribes : ∃ s before at' later' answers taken middle,
    oneStation.follow oneList (oneStory ++ [.subscribe 1785600040 1785600040 false])
        (Station.begin oneClient Db.empty) = some s
      ∧ oneStory = before ++ .start at' later' answers taken :: middle
      ∧ ∀ signal ∈ middle, signal.isStart = false := by
  have hrun : ((oneStation.follow oneList
      (oneStory ++ [.subscribe 1785600040 1785600040 false])
      (Station.begin oneClient Db.empty)).map State.waits) = some [1] := by decide +kernel
  obtain ⟨s, hs, -⟩ := Option.map_eq_some_iff.mp hrun
  obtain ⟨before, at', later', answers, taken, middle, q, hsplit, hmiddle, -, -⟩ :=
    subscribed_after_replay hs
  exact ⟨s, before, at', later', answers, taken, middle, hs, hsplit, hmiddle⟩

/-! ## How often it comes round -/

/-- A relay list. -/
def isRelayList (e : Event) : Bool := e.kind == relayListKind

/-- A relay list stored in the priming under way, and not yet acted on. -/
def Phase.pending : Phase → Nat
  | .priming _ true => 1
  | .primed true => 1
  | _ => 0

/-- Each restart is paid for by a relay list stored since the run began, and the waits
    since a subscription last opened are one for each attempt. -/
structure Paced (X : Externals F) (db : Db F) (s : State F) : Prop where
  restarts : s.restarts + s.phase.pending + (readable X isRelayList db).size
    ≤ (readable X isRelayList s.db).size
  waits : s.waits = (List.range s.attempt).map fun k => backoff (k + 1)

section Paced

variable {S : Station} {db : Db F} {s s' : State F} {signal : Signal}

/-- The relay lists archived. -/
def listed (X : Externals F) (db : Db F) : Nat := (readable X isRelayList db).size

theorem listed_same {db db' : Db F} (h : SameButKinds db db') : listed X db' = listed X db := by
  obtain ⟨kinds, rfl⟩ := h
  rfl

theorem listed_rediscover (s : State F) (now : Int) :
    listed X (s.rediscover S now).2.db = listed X s.db := by
  rw [State.rediscover]
  by_cases hdiscover : S.settings.discoverRelays = true
  · rw [if_pos hdiscover]
    exact congrArg Std.ExtTreeMap.size
      (readable_connect (P := S.policy) isRelayList S.settings now s.db)
  · rw [if_neg hdiscover]

/-- An event that names relays is one more list in the archive. -/
theorem listed_take (s : State F) (relay : String) (e : Event) (now : Int) :
    listed X (s.take X S relay e now).2.db
      = listed X s.db + if (s.take X S relay e now).1 then 1 else 0 := by
  have hstores : ∀ outcome : IngestOutcome F,
      stores isRelayList e outcome = if namesRelays e outcome then 1 else 0 := by
    intro outcome
    cases outcome with
    | stored => rfl
    | duplicate => rfl
    | redundant => rfl
    | rejected rejection => rfl
  show (readable X isRelayList (Pipeline.ingest X S.policy ⟨e, relay, now⟩ s.db).2).size = _
  rw [readable_ingest, hstores]
  rfl

theorem rediscover_frame (s : State F) (now : Int) :
    (s.rediscover S now).2.phase = s.phase ∧ (s.rediscover S now).2.restarts = s.restarts
      ∧ (s.rediscover S now).2.attempt = s.attempt
      ∧ (s.rediscover S now).2.waits = s.waits := by
  rw [State.rediscover]
  split_ifs
  · exact ⟨rfl, rfl, rfl, rfl⟩
  · exact ⟨rfl, rfl, rfl, rfl⟩

/-- Waiting once more. -/
theorem waits_rest (h : s.waits = (List.range s.attempt).map fun k => backoff (k + 1)) :
    s.rest.waits = (List.range s.rest.attempt).map fun k => backoff (k + 1) := by
  show s.waits ++ [backoff (s.attempt + 1)] = (List.range (s.attempt + 1)).map _
  rw [List.range_succ, List.map_append, h]
  rfl

/-- **STEP**. -/
theorem Paced.stepped (h : Paced X db s) (hstep : Stepped X S s signal s') : Paced X db s' := by
  have hrestarts := h.restarts
  have hwaits := h.waits
  cases hstep with
  | @started now later answers opened hphase =>
      obtain ⟨-, hsame, hattempt, hwaited⟩ := rediscover_frame (S := S) s now
      have htargets := listed_same (X := X) (targetsFrom_spec (S := S) taggedKinds
        (S.vouched (s.rediscover S now).2.db) later
        (((s.rediscover S now).2.client.reattach ⟨S.parseUrl, answers⟩).relays)
        (s.rediscover S now).2.db).1
      have hlisted : listed X (S.targets taggedKinds later
          ((s.rediscover S now).2.client.reattach ⟨S.parseUrl, answers⟩)
          (s.rediscover S now).2.db).2 = listed X s.db :=
        htargets.trans (listed_rediscover s now)
      rw [hphase] at hrestarts
      have hpaced : ∀ q : State F, q.restarts = (s.rediscover S now).2.restarts →
          q.phase.pending = 0 → q.attempt = (s.rediscover S now).2.attempt →
          q.waits = (s.rediscover S now).2.waits → listed X q.db = listed X s.db →
          Paced X db q := by
        intro q hq hpending hqattempt hqwaits hqlisted
        refine ⟨?_, by rw [hqwaits, hqattempt, hwaited, hattempt, hwaits]⟩
        show q.restarts + q.phase.pending + listed X db ≤ listed X q.db
        rw [hq, hsame, hpending, hqlisted]
        exact hrestarts
      rw [Station.start]
      dsimp only
      cases opened with
      | false => exact hpaced _ rfl rfl rfl rfl hlisted
      | true =>
          refine hpaced _ rfl ?_ rfl rfl hlisted
          rcases await_phase (List.map Prod.fst _) false _ with ⟨-, hawait⟩ | hawait
          · exact congrArg Phase.pending hawait
          · exact congrArg Phase.pending hawait
  | @subscribed now later opened namedRelays hphase =>
      have hboth : ∀ q : State F,
          q.restarts + listed X db ≤ listed X q.db →
          q.waits = (List.range q.attempt).map (fun k => backoff (k + 1)) → Paced X db
          (let targets := S.targets indexedKinds later q.client q.db
           let q := { q with db := targets.2 }
           if opened then { q with
            phase := .live, attempt := 0, waits := []
            asked := q.asked ++ askedOf false targets.1 }
           else q.rest) := by
        intro q hq hqwaits
        have htargets := listed_same (X := X) (targetsFrom_spec (S := S) indexedKinds
          (S.vouched q.db) later q.client.relays q.db).1
        dsimp only
        cases opened with
        | true =>
            refine ⟨?_, rfl⟩
            show q.restarts + 0 + listed X db ≤ listed X (S.targets _ _ _ _).2
            rw [Station.targets, htargets]
            exact hq
        | false =>
            refine ⟨?_, waits_rest hqwaits⟩
            show q.restarts + 0 + listed X db ≤ listed X (S.targets _ _ _ _).2
            rw [Station.targets, htargets]
            exact hq
      obtain ⟨-, hsame, hattempt, hwaited⟩ := rediscover_frame (S := S) s now
      have hbefore : s.restarts + listed X db ≤ listed X s.db := by
        have hle := hrestarts
        unfold listed
        omega
      rw [Station.subscribe]
      cases namedRelays with
      | false => exact hboth s hbefore hwaits
      | true =>
          rw [hphase] at hrestarts
          dsimp only
          rw [if_pos rfl]
          by_cases hchanged : (s.rediscover S now).1 = true
          · rw [if_pos hchanged]
            refine ⟨?_, by
              show (s.rediscover S now).2.waits = _
              rw [hwaited, hwaits]
              show _ = (List.range (s.rediscover S now).2.attempt).map _
              rw [hattempt]⟩
            show (s.rediscover S now).2.restarts + 1 + 0 + listed X db
              ≤ listed X (s.rediscover S now).2.db
            rw [hsame, listed_rediscover]
            exact hrestarts
          · rw [if_neg hchanged]
            refine hboth _ ?_ (by rw [hwaited, hattempt, hwaits])
            rw [hsame, listed_rediscover]
            exact hbefore
  | @primingEvent relay e now later waiting namedRelays hphase =>
      refine ⟨?_, hwaits⟩
      have htake := listed_take (X := X) (S := S) s relay e now
      rw [hphase] at hrestarts
      show s.restarts + Phase.pending (.priming waiting _) + listed X db
        ≤ listed X (s.take X S relay e now).2.db
      rw [htake]
      have hle : s.restarts + Phase.pending (.priming waiting namedRelays) + listed X db
          ≤ listed X s.db := hrestarts
      cases namedRelays with
      | true =>
          rw [Bool.true_or]
          omega
      | false =>
          rw [Bool.false_or]
          cases (s.take X S relay e now).1 with
          | true =>
              rw [if_pos rfl]
              simp only [Phase.pending] at hle ⊢
              omega
          | false =>
              rw [if_neg Bool.false_ne_true]
              simp only [Phase.pending] at hle ⊢
              omega
  | @liveEvent relay e now later hphase =>
      have htake := listed_take (X := X) (S := S) s relay e now
      obtain ⟨hlive, hsame, hattempt, hwaited⟩ :=
        rediscover_frame (S := S) (s.take X S relay e now).2 later
      rw [hphase] at hrestarts
      have hbefore : s.restarts + listed X db ≤ listed X s.db := hrestarts
      have hphase' : (s.take X S relay e now).2.phase = .live := hphase
      rw [Station.deliver]
      dsimp only
      by_cases hnamed : (s.take X S relay e now).1 = true
      · rw [if_pos hnamed]
        rw [if_pos hnamed] at htake
        by_cases hchanged : ((s.take X S relay e now).2.rediscover S later).1 = true
        · rw [if_pos hchanged]
          refine ⟨?_, by
            show ((s.take X S relay e now).2.rediscover S later).2.waits
              = (List.range ((s.take X S relay e now).2.rediscover S later).2.attempt).map _
            rw [hwaited, hattempt]
            exact hwaits⟩
          show ((s.take X S relay e now).2.rediscover S later).2.restarts + 1 + 0 + listed X db
            ≤ listed X ((s.take X S relay e now).2.rediscover S later).2.db
          rw [hsame, listed_rediscover, htake]
          show s.restarts + 1 + 0 + listed X db ≤ _
          omega
        · rw [if_neg hchanged]
          refine ⟨?_, by
            rw [hwaited, hattempt]
            exact hwaits⟩
          show ((s.take X S relay e now).2.rediscover S later).2.restarts
              + ((s.take X S relay e now).2.rediscover S later).2.phase.pending + listed X db
            ≤ listed X ((s.take X S relay e now).2.rediscover S later).2.db
          rw [hlive, hphase', hsame, listed_rediscover, htake]
          show s.restarts + 0 + listed X db ≤ _
          omega
      · rw [if_neg hnamed]
        rw [if_neg hnamed] at htake
        refine ⟨?_, hwaits⟩
        show s.restarts + (s.take X S relay e now).2.phase.pending + listed X db
          ≤ listed X (s.take X S relay e now).2.db
        rw [hphase', htake]
        exact hbefore
  | @replayed relay waiting namedRelays hphase =>
      rw [hphase] at hrestarts
      refine ⟨?_, hwaits⟩
      have hpending : (s.await (waiting.filter fun other => other != relay) namedRelays).phase.pending
          = Phase.pending (.priming waiting namedRelays) := by
        rcases await_phase (waiting.filter fun other => other != relay) namedRelays s with
          ⟨-, hawait⟩ | hawait
        · rw [hawait]
          cases namedRelays with
          | true => rfl
          | false => rfl
        · rw [hawait]
          cases namedRelays with
          | true => rfl
          | false => rfl
      rw [hpending]
      exact hrestarts
  | idle _ => exact h
  | @timedOut waiting namedRelays hphase =>
      rw [hphase] at hrestarts
      refine ⟨?_, hwaits⟩
      cases namedRelays with
      | true => exact hrestarts
      | false => exact hrestarts
  | @primingEnded waiting namedRelays hphase =>
      rw [hphase] at hrestarts
      refine ⟨?_, hwaits⟩
      cases namedRelays with
      | true => exact hrestarts
      | false => exact hrestarts
  | liveEnded hphase =>
      rw [hphase] at hrestarts
      exact ⟨hrestarts, waits_rest hwaits⟩
  | woke hphase =>
      rw [hphase] at hrestarts
      exact ⟨hrestarts, hwaits⟩
  | stopped => exact ⟨le_trans (by simp [Phase.pending]) hrestarts, hwaits⟩

end Paced

/-- **IT NEITHER SPINS NOR SLEEPS.**  Wherever a run stands: it has rebuilt its
    subscription at once no more often than relay lists have joined the archive since
    it began, and since a subscription last opened it has waited one, two, four
    seconds and so on, a minute at most, once for each attempt. -/
theorem paced {X : Externals F} {S : Station} {client : RelayClient} {db : Db F}
    {signals : List Signal} {s : State F}
    (h : S.follow X signals (Station.begin client db) = some s) :
    s.restarts + (readable X isRelayList db).size ≤ (readable X isRelayList s.db).size
      ∧ s.waits.length = s.attempt
      ∧ ∀ k wait, s.waits[k]? = some wait → wait = min (2 ^ k) 60 := by
  have hbegin : Paced X db (Station.begin client db) :=
    ⟨by simp [Station.begin, Phase.pending], rfl⟩
  have hall := follow_induction hbegin (fun _ _ _ hs hstep => hs.stepped hstep) h
  refine ⟨?_, ?_, fun k wait hwait => ?_⟩
  · have hle := hall.restarts
    omega
  · rw [hall.waits, List.length_map, List.length_range]
  · rw [hall.waits, List.getElem?_map, Option.map_eq_some_iff] at hwait
    obtain ⟨n, hn, rfl⟩ := hwait
    have hnk : n = k := by
      obtain ⟨hlt, heq⟩ := List.getElem?_eq_some_iff.mp hn
      rw [List.getElem_range] at heq
      exact heq.symm
    subst hnk
    rw [backoff, Nat.one_mul, Nat.add_sub_cancel]
    by_cases hsmall : n ≤ 31
    · rw [min_eq_left hsmall]
    · have hbig : (60 : Nat) ≤ 2 ^ 31 := by norm_num
      have hpow : 2 ^ 31 ≤ 2 ^ n := Nat.pow_le_pow_right (by norm_num) (by omega)
      rw [min_eq_right (by omega : 31 ≤ n), min_eq_right hbig, min_eq_right (hbig.trans hpow)]

/-- One restart, and one relay list more in the archive. -/
theorem one_story_paced : ∃ s,
    oneStation.follow oneList oneStory (Station.begin oneClient Db.empty) = some s
      ∧ 1 + (readable oneList isRelayList (Db.empty : Db Int)).size
        ≤ (readable oneList isRelayList s.db).size := by
  obtain ⟨s, hs, -, hrestarts, -⟩ := oneStory_run
  refine ⟨s, hs, ?_⟩
  rw [← hrestarts]
  exact (paced hs).1

end Dialling
