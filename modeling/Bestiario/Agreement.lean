import Bestiario.Reingest

/-! # One rule, stated twice

    An archive's heartbeats are fed to the pipeline in the order they were made, into
    an archive that holds none, and what it keeps is compared with what the migration
    leaves.

    * `retention_agrees_iff` — they agree, but for a relay list without tags, which
      the migration never finds equal to another, and for the last hour a clock can
      tell, whose end the pipeline cannot. -/

namespace Migration

open Keyed Wire Parse Repo Pipeline Derived Retain

variable {F : Type} {X : Externals F} {P : Policy} {db db₀ : Db F}

/-! ## An archive and its feed -/

/-- An archive of heartbeats that were admitted and parse, no two announcements of
    one address sharing a clock. -/
structure Archive (X : Externals F) (P : Policy) (db : Db F) : Prop where
  tables : Consistent X db fun _ => False
  admitted : ∀ (k : String) r, db.events[k]? = some r → heartbeat r.kind = true →
    admission X P r.rawJson = none
  parsed : ∀ (k : String) r, db.events[k]? = some r → heartbeat r.kind = true →
    ∃ parsed, parse X r.rawJson = .ok parsed
  apart : ∀ (k l : String) r q, db.events[k]? = some r → db.events[l]? = some q →
    announces r.kind = true → address q = address r → q.createdAt = r.createdAt → q = r

/-- `(created_at, id)`. -/
def clock (e : Event) : ℤ ×ₗ String := toLex (e.at, e.id)

/-- The archive's heartbeats, each once and in the order they were made, fed into an
    archive that holds nothing and vouches for their publishers. -/
structure Feed (X : Externals F) (P : Policy) (db db₀ : Db F) (calls : List Call) : Prop where
  whole : ∀ e, e ∈ calls.map Call.event
    ↔ ∃ (k : String) (r : EventRecord), db.events[k]? = some r ∧ heartbeat r.kind = true
        ∧ r.rawJson = e
  once : (calls.map Call.event).Nodup
  announcements : (calls.map Call.event).Pairwise fun e f =>
    announces e.kind = true → announces f.kind = true → clock e ≤ clock f
  snapshots : (calls.map Call.event).Pairwise fun e f =>
    ∀ s t, readRates X e = some s → readRates X f = some t → published s ≤ published t
  events : db₀.events = ∅
  rates : db₀.rates = ∅
  vouched : ∀ c ∈ calls, vouchedFor P c.event db₀ = none

/-- The migration leaves the heartbeats that the pipeline would archive. -/
def Agree (X : Externals F) (P : Policy) (db db₀ : Db F) (calls : List Call) : Prop :=
  ∀ e : Event,
    (∃ (k : String) (r : EventRecord), (heartbeatRetention db).events[k]? = some r
        ∧ heartbeat r.kind = true ∧ r.rawJson = e)
      ↔ ∃ (k : String) (r : EventRecord), (ingestAll X P calls db₀).events[k]? = some r
          ∧ r.rawJson = e

/-- No announcement without tags says what the one before it said, without tags
    either. -/
def NoBareRepeat (db : Db F) : Prop :=
  ∀ (k : String) r p, db.events[k]? = some r → announces r.kind = true → Precedes db p r →
    r.rawJson.tags = [] → p.rawJson.tags = [] → p.rawJson.content ≠ r.rawJson.content

/-- Of the hour whose end is no instant, a publisher has one snapshot at most. -/
def OneInLastHour (db : Db F) : Prop :=
  ∀ (k l : String) (s t : RateSnapshot F), db.rates[k]? = some s → db.rates[l]? = some t →
    OneHour t s → ¬ Ends s → t = s

theorem announces_heartbeat {kind : UInt16} (h : announces kind = true) :
    heartbeat kind = true := by
  rw [heartbeat, h]
  rfl

section Feeding

variable {calls : List Call} {before after : List Event} {e f : Event}

/-- An event fed has its row. -/
theorem row_of_fed (ha : Archive X P db) (hf : Feed X P db db₀ calls)
    (he : e ∈ calls.map Call.event) :
    ∃ r, db.events[e.id]? = some r ∧ r.rawJson = e ∧ heartbeat r.kind = true := by
  obtain ⟨k, r, hk, hkind, rfl⟩ := (hf.whole e).mp he
  rw [ha.tables.rawJson_id hk]
  exact ⟨r, hk, rfl, hkind⟩

theorem eq_of_id (ha : Archive X P db) (hf : Feed X P db db₀ calls)
    (he : e ∈ calls.map Call.event) (hg : f ∈ calls.map Call.event) (hid : f.id = e.id) :
    f = e := by
  obtain ⟨r, hr, rfl, -⟩ := row_of_fed ha hf he
  obtain ⟨q, hq, rfl, -⟩ := row_of_fed ha hf hg
  rw [hid, hr] at hq
  rw [Option.some.inj hq]

/-- The columns of a row are its event's. -/
theorem columns (ha : Archive X P db) {k : String} {r : EventRecord}
    (hk : db.events[k]? = some r) :
    r.id = r.rawJson.id ∧ r.createdAt = r.rawJson.at ∧ r.kind = r.rawJson.kind
      ∧ address r = (r.rawJson.pubkey, r.rawJson.kind, Wire.dTag r.rawJson) :=
  address_of_keyed (ha.tables.keyed k r hk).2

theorem created_eq_clock (ha : Archive X P db) {k : String} {r : EventRecord}
    (hk : db.events[k]? = some r) : created r = clock r.rawJson := by
  obtain ⟨hid, hat, -, -⟩ := columns ha hk
  rw [created, ascAsc, hid, hat]
  rfl

/-- A row that reads as a snapshot is a heartbeat. -/
theorem heartbeat_of_readRates (ha : Archive X P db) {k : String} {r : EventRecord}
    {s : RateSnapshot F} (hk : db.events[k]? = some r) (hread : readRates X r.rawJson = some s) :
    heartbeat r.kind = true := by
  rw [(columns ha hk).2.2.1, readRates_kind hread]
  rfl

/-- One address is one group. -/
theorem group_eq_iff (ha : Archive X P db) {k l : String} {r q : EventRecord}
    (hk : db.events[k]? = some r) (hl : db.events[l]? = some q)
    (hr : announces r.kind = true) :
    group q.rawJson = group r.rawJson ↔ announces q.kind = true ∧ address q = address r := by
  obtain ⟨-, -, hkind, haddress⟩ := columns ha hk
  obtain ⟨-, -, hkind', haddress'⟩ := columns ha hl
  have hr' : announces r.rawJson.kind = true := hkind.symm ▸ hr
  rw [haddress, haddress', hkind', group_of_announces hr']
  constructor
  · intro hgroup
    have hq : announces q.rawJson.kind = true :=
      announces_of_same (hgroup.trans (group_of_announces hr').symm) hr'
    rw [group_of_announces hq, Option.some.injEq] at hgroup
    exact ⟨hq, hgroup⟩
  · rintro ⟨hq, heq⟩
    rw [group_of_announces hq, heq]

/-- What the pipeline meets next is new to it. -/
theorem next_of_feed (ha : Archive X P db) (hf : Feed X P db db₀ calls)
    (hsplit : calls.map Call.event = before ++ e :: after) : Next before e := by
  have hbefore : ∀ {f}, f ∈ before → f ∈ calls.map Call.event := fun hmem =>
    hsplit ▸ List.mem_append_left _ hmem
  have he : e ∈ calls.map Call.event := hsplit ▸ List.mem_append_right _ List.mem_cons_self
  have hne : ∀ {f}, f ∈ before → f ≠ e := by
    rintro f hmem rfl
    have honce := hf.once
    rw [hsplit] at honce
    exact (List.nodup_append'.mp honce).2.2 hmem List.mem_cons_self
  -- Of one address, one clock is one event.
  have hclock : ∀ {f g}, f ∈ calls.map Call.event → g ∈ calls.map Call.event →
      announces g.kind = true → group f = group g → f.at = g.at → f = g := by
    intro f g hmem hmem' hannounces hgroup hat
    obtain ⟨q, hq, rfl, -⟩ := row_of_fed ha hf hmem
    obtain ⟨r, hr, rfl, -⟩ := row_of_fed ha hf hmem'
    obtain ⟨-, hqat, -, -⟩ := columns ha hq
    obtain ⟨-, hrat, hrkind, -⟩ := columns ha hr
    have hrow := ha.apart _ _ r q hr hq (hrkind ▸ hannounces)
      ((group_eq_iff ha hr hq (hrkind ▸ hannounces)).mp hgroup).2 (by rw [hqat, hrat, hat])
    rw [hrow]
  have hat : ∀ {f g : Event}, clock f ≤ clock g → f.at ≤ g.at := by
    intro f g hle
    rcases Prod.Lex.toLex_le_toLex.mp hle with hlt | ⟨heq, -⟩
    · exact hlt.le
    · exact heq.le
  have hsorted := hf.announcements
  rw [hsplit, List.pairwise_append] at hsorted
  refine ⟨fun f hmem hid => hne hmem (eq_of_id ha hf he (hbefore hmem) hid), ?_, ?_, ?_⟩
  · intro f hmem hkind hgroup
    have hle := hat (hsorted.2.2 f hmem e List.mem_cons_self (announces_of_same hgroup hkind) hkind)
    refine lt_of_le_of_ne hle fun heq => hne hmem ?_
    exact hclock (hbefore hmem) he hkind hgroup heq
  · intro f hmem g hmem' hkind hgroup hgroup' heq
    exact hclock (hbefore hmem) (hbefore hmem') (announces_of_same hgroup' hkind)
      (hgroup.trans hgroup'.symm) heq
  · exact hsorted.1.imp fun hle hfk hgk => hat (hle hfk hgk)

/-- The feed runs by the rule. -/
theorem fed_of_feed (ha : Archive X P db) (hf : Feed X P db db₀ calls) :
    Fed X P db₀ (calls.map Call.event) (ingestAll X P calls db₀) := by
  have hrow : ∀ c ∈ calls, ∃ r, db.events[c.event.id]? = some r ∧ r.rawJson = c.event
      ∧ heartbeat r.kind = true := fun c hc =>
    row_of_fed ha hf (List.mem_map.mpr ⟨c, hc, rfl⟩)
  refine .run hf.events hf.rates ?_ ?_ ?_ hf.vouched ?_
  · intro pre c post heq
    have hsplit : calls.map Call.event
        = pre.map Call.event ++ c.event :: post.map Call.event := by
      rw [heq, List.map_append, List.map_cons]
    exact next_of_feed ha hf hsplit
  · intro c hc
    obtain ⟨r, hr, heq, hkind⟩ := hrow c hc
    rw [← heq, ← (columns ha hr).2.2.1]
    exact hkind
  · intro c hc
    obtain ⟨r, hr, heq, hkind⟩ := hrow c hc
    rw [← heq]
    exact ha.admitted _ r hr hkind
  · intro c hc
    obtain ⟨r, hr, heq, hkind⟩ := hrow c hc
    rw [← heq]
    exact ha.parsed _ r hr hkind

/-- **THE PIPELINE ARCHIVES** what the rule keeps. -/
theorem archived_iff (ha : Archive X P db) (hf : Feed X P db db₀ calls)
    (hsplit : calls.map Call.event = before ++ e :: after) :
    (∃ (k : String) (r : EventRecord), (ingestAll X P calls db₀).events[k]? = some r
        ∧ r.rawJson = e)
      ↔ drop X (keep (drop X) before) e = false := by
  have hfed := fed_of_feed ha hf
  have honce := hf.once
  rw [hsplit] at honce hfed
  rw [← mem_keep_iff honce]
  constructor
  · rintro ⟨k, r, hk, rfl⟩
    exact (hfed.keyed k r hk).2.2
  · intro hkept
    obtain ⟨r, hr, heq⟩ := hfed.kept e hkept
    exact ⟨e.id, r, hr, heq⟩

/-! ## The same rows before -/

/-- Of the announcements, those fed before a row are those with an earlier clock. -/
theorem mem_before_iff (ha : Archive X P db) (hf : Feed X P db db₀ calls)
    {r : EventRecord} (hr : db.events[r.id]? = some r) (hkind : announces r.kind = true)
    (hsplit : calls.map Call.event = before ++ r.rawJson :: after) {k : String} {q : EventRecord}
    (hk : db.events[k]? = some q) (hq : announces q.kind = true) :
    q.rawJson ∈ before ↔ created q < created r := by
  have hannounces : announces r.rawJson.kind = true := (columns ha hr).2.2.1 ▸ hkind
  have hqkind : announces q.rawJson.kind = true := (columns ha hk).2.2.1 ▸ hq
  have hsorted := hf.announcements
  rw [hsplit, List.pairwise_append] at hsorted
  have honce := hf.once
  rw [hsplit] at honce
  rw [created_eq_clock ha hk, created_eq_clock ha hr]
  constructor
  · intro hmem
    refine lt_of_le_of_ne
      (hsorted.2.2 _ hmem _ List.mem_cons_self hqkind hannounces) fun heq => ?_
    have hid : q.rawJson.id = r.rawJson.id := congrArg (fun c => (ofLex c).2) heq
    have hsame := eq_of_id ha hf (hsplit ▸ List.mem_append_right _ List.mem_cons_self)
      (hsplit ▸ List.mem_append_left _ hmem) hid
    rw [hsame] at hmem
    exact (List.nodup_append'.mp honce).2.2 hmem List.mem_cons_self
  · intro hlt
    have hmem : q.rawJson ∈ calls.map Call.event :=
      (hf.whole _).mpr ⟨k, q, hk, announces_heartbeat hq, rfl⟩
    rw [hsplit, List.mem_append, List.mem_cons] at hmem
    rcases hmem with hmem | heq | hmem
    · exact hmem
    · rw [heq] at hlt
      exact absurd hlt (lt_irrefl _)
    · have hle := (List.pairwise_cons.mp hsorted.2.1).1 _ hmem hannounces hqkind
      exact absurd (hlt.trans_le hle) (lt_irrefl _)

/-- The announcement the windows find before a row is the last fed before it. -/
theorem precedes_iff (ha : Archive X P db) (hf : Feed X P db db₀ calls)
    {r : EventRecord} (hr : db.events[r.id]? = some r) (hkind : announces r.kind = true)
    (hsplit : calls.map Call.event = before ++ r.rawJson :: after) {p : EventRecord}
    (hp : ∃ k : String, db.events[k]? = some p) :
    Precedes db p r ↔ lastOf group r.rawJson before = some p.rawJson := by
  have hannounces : announces r.rawJson.kind = true := (columns ha hr).2.2.1 ▸ hkind
  have hsorted := hf.announcements
  rw [hsplit, List.pairwise_append] at hsorted
  have hfed : ∀ {f}, f ∈ before → f ∈ calls.map Call.event := fun hmem =>
    hsplit ▸ List.mem_append_left _ hmem
  have hgroup : ∀ {f : Event}, group f = group r.rawJson → announces f.kind = true :=
    fun heq => announces_of_same heq hannounces
  have hbefore : ∀ {k : String} {q : EventRecord}, db.events[k]? = some q →
      announces q.kind = true → (q.rawJson ∈ before ↔ created q < created r) :=
    fun hk hq => mem_before_iff ha hf hr hkind hsplit hk hq
  obtain ⟨l, hl⟩ := hp
  constructor
  · intro hprecedes
    have hpmem := (hbefore hl hprecedes.announces).mpr hprecedes.before
    have hpgroup : group p.rawJson = group r.rawJson :=
      (group_eq_iff ha hr hl hkind).mpr ⟨hprecedes.announces, hprecedes.address⟩
    cases hlast : lastOf group r.rawJson before with
    | none => exact absurd hpgroup (lastOf_eq_none_iff.mp hlast _ hpmem)
    | some f =>
        obtain ⟨hfmem, hfgroup, hle⟩ := lastOf_spec hsorted.1 hlast
        obtain ⟨q, hq, rfl, -⟩ := row_of_fed ha hf (hfed hfmem)
        obtain ⟨hqkind, hqaddress⟩ := (group_eq_iff ha hr hq hkind).mp hfgroup
        have hqp : created q ≤ created p := hprecedes.last _ q hq hqkind hqaddress
          ((hbefore hq hqkind).mp hfmem)
        have hpq : created p ≤ created q := by
          rcases hle p.rawJson hpmem hpgroup with heq | hle
          · rw [created_eq_clock ha hl, created_eq_clock ha hq, heq]
          · rw [created_eq_clock ha hl, created_eq_clock ha hq]
            exact hle (hgroup hpgroup) (hgroup hfgroup)
        rw [created_inj ha.tables q p ⟨_, hq⟩ ⟨_, hl⟩ (le_antisymm hqp hpq)]
  · intro hlast
    obtain ⟨hpmem, hpgroup, hle⟩ := lastOf_spec hsorted.1 hlast
    obtain ⟨hpkind, hpaddress⟩ := (group_eq_iff ha hr hl hkind).mp hpgroup
    refine ⟨⟨l, hl⟩, hpkind, hpaddress, (hbefore hl hpkind).mp hpmem, ?_⟩
    intro k q hk hqkind hqaddress hlt
    have hqgroup := (group_eq_iff ha hr hk hkind).mpr ⟨hqkind, hqaddress⟩
    rcases hle q.rawJson ((hbefore hk hqkind).mpr hlt) hqgroup with heq | hle
    · rw [created_eq_clock ha hk, created_eq_clock ha hl, heq]
    · rw [created_eq_clock ha hk, created_eq_clock ha hl]
      exact hle (hgroup hqgroup) (hgroup hpgroup)

/-- The snapshots of the hour the windows find before a row were fed before it. -/
theorem earlier_iff (ha : Archive X P db) (hf : Feed X P db db₀ calls)
    (hsplit : calls.map Call.event = before ++ e :: after) {s t : RateSnapshot F}
    (hs : readRates X e = some s) :
    (∃ l : String, db.rates[l]? = some t) ∧ published t < published s
      ↔ ∃ f ∈ before, readRates X f = some t := by
  have hsorted := hf.snapshots
  rw [hsplit, List.pairwise_append] at hsorted
  have honce := hf.once
  rw [hsplit] at honce
  have he : e ∈ calls.map Call.event := hsplit ▸ List.mem_append_right _ List.mem_cons_self
  constructor
  · rintro ⟨⟨l, hl⟩, hlt⟩
    obtain ⟨q, hq, hread⟩ := ha.tables.rates.sound l t hl
    have hkind : heartbeat q.kind = true := heartbeat_of_readRates ha hq hread
    have hmem : q.rawJson ∈ calls.map Call.event := (hf.whole _).mpr ⟨l, q, hq, hkind, rfl⟩
    rw [hsplit, List.mem_append, List.mem_cons] at hmem
    rcases hmem with hmem | heq | hmem
    · exact ⟨_, hmem, hread⟩
    · rw [heq, hs] at hread
      cases hread
      exact absurd hlt (lt_irrefl _)
    · have hle := (List.pairwise_cons.mp hsorted.2.1).1 _ hmem s t hs hread
      exact absurd (hlt.trans_le hle) (lt_irrefl _)
  · rintro ⟨f, hmem, hread⟩
    have hfed : f ∈ calls.map Call.event := hsplit ▸ List.mem_append_left _ hmem
    obtain ⟨q, hq, rfl, -⟩ := row_of_fed ha hf hfed
    refine ⟨⟨_, ha.tables.rates.complete _ q t hq hread id⟩, ?_⟩
    refine lt_of_le_of_ne (hsorted.2.2 _ hmem e List.mem_cons_self t s hread hs) fun heq => ?_
    have hid : t.eventId = s.eventId := congrArg (fun c => (ofLex c).2) heq
    rw [(readRates_origin hread).1, (readRates_origin hs).1] at hid
    have hsame := eq_of_id ha hf he hfed hid
    rw [hsame] at hmem
    exact (List.nodup_append'.mp honce).2.2 hmem List.mem_cons_self

/-! ## Event by event -/

/-- A fed announcement is archived unless it says what the one before it said. -/
theorem announcement_archived_iff (ha : Archive X P db) (hf : Feed X P db db₀ calls)
    {r : EventRecord} (hr : db.events[r.id]? = some r) (hkind : announces r.kind = true) :
    (∃ (k : String) (q : EventRecord), (ingestAll X P calls db₀).events[k]? = some q
        ∧ q.rawJson = r.rawJson)
      ↔ ¬ ∃ p, Precedes db p r ∧ p.rawJson.content = r.rawJson.content
          ∧ Heartbeats.sameTags p.rawJson r.rawJson = true := by
  have hmem : r.rawJson ∈ calls.map Call.event :=
    (hf.whole _).mpr ⟨_, r, hr, announces_heartbeat hkind, rfl⟩
  obtain ⟨before, after, hsplit⟩ := List.append_of_mem hmem
  have hannounces : announces r.rawJson.kind = true := (columns ha hr).2.2.1 ▸ hkind
  rw [archived_iff ha hf hsplit, drop_announcement before hannounces, ← Bool.not_eq_true,
    not_iff_not]
  constructor
  · intro hrepeats
    cases hlast : lastOf group r.rawJson before with
    | none =>
        rw [hlast] at hrepeats
        exact nomatch hrepeats
    | some f =>
        rw [hlast] at hrepeats
        have hfmem : f ∈ before := (lastOf_spec (List.pairwise_of_forall fun _ _ => trivial) hlast
          (R := fun _ _ => True)).1
        obtain ⟨p, hp, rfl, -⟩ := row_of_fed ha hf (hsplit ▸ List.mem_append_left _ hfmem)
        obtain ⟨hcontent, htags⟩ := Bool.and_eq_true_iff.mp hrepeats
        exact ⟨p, (precedes_iff ha hf hr hkind hsplit ⟨_, hp⟩).mpr hlast, eq_of_beq hcontent,
          htags⟩
  · rintro ⟨p, hprecedes, hcontent, htags⟩
    rw [(precedes_iff ha hf hr hkind hsplit hprecedes.archived).mp hprecedes]
    exact Bool.and_eq_true_iff.mpr ⟨beq_iff_eq.mpr hcontent, htags⟩

/-- A fed snapshot is archived unless an earlier one is of its hour, and the hour
    ends. -/
theorem snapshot_archived_iff (ha : Archive X P db) (hf : Feed X P db db₀ calls)
    {r : EventRecord} (hr : db.events[r.id]? = some r) {s : RateSnapshot F}
    (hs : readRates X r.rawJson = some s) :
    (∃ (k : String) (q : EventRecord), (ingestAll X P calls db₀).events[k]? = some q
        ∧ q.rawJson = r.rawJson)
      ↔ ¬ ∃ (l : String) (t : RateSnapshot F), db.rates[l]? = some t ∧ OneHour t s
          ∧ Ends s ∧ published t < published s := by
  have hkind : heartbeat r.kind = true := heartbeat_of_readRates ha hr hs
  have hmem : r.rawJson ∈ calls.map Call.event := (hf.whole _).mpr ⟨_, r, hr, hkind, rfl⟩
  obtain ⟨before, after, hsplit⟩ := List.append_of_mem hmem
  rw [archived_iff ha hf hsplit, drop_snapshot before hs, ← Bool.not_eq_true, not_iff_not,
    List.any_eq_true]
  constructor
  · rintro ⟨f, hfmem, htakes⟩
    obtain ⟨s', t, hs', hread, hhour, hends⟩ := takes_iff.mp htakes
    rw [hs] at hs'
    cases hs'
    obtain ⟨⟨l, hl⟩, hlt⟩ := (earlier_iff ha hf hsplit hs).mpr ⟨f, hfmem, hread⟩
    exact ⟨l, t, hl, hhour, hends, hlt⟩
  · rintro ⟨l, t, hl, hhour, hends, hlt⟩
    obtain ⟨f, hfmem, hread⟩ := (earlier_iff ha hf hsplit hs).mp ⟨⟨l, hl⟩, hlt⟩
    exact ⟨f, hfmem, takes_iff.mpr ⟨s, t, hs, hread, hhour, hends⟩⟩

/-- A rate sheet that parses is a snapshot. -/
theorem exists_readRates (hkind : e.kind = ratesKind) {parsed : Parsed F}
    (hp : parse X e = .ok parsed) : ∃ s, readRates X e = some s := by
  have hparse : malformed (parseRates X e) .rates = .ok parsed := by
    rw [← hp, parse, hkind]
    rfl
  obtain ⟨s, hs, rfl⟩ := malformed_eq_ok hparse
  exact ⟨s, readRates_eq_some.mpr hp⟩

/-- A heartbeat survives when its own row does. -/
theorem survives_iff_row (ha : Archive X P db) {k : String} {r : EventRecord}
    (hk : db.events[k]? = some r) (hkind : heartbeat r.kind = true) :
    (∃ (l : String) (q : EventRecord), (heartbeatRetention db).events[l]? = some q
        ∧ heartbeat q.kind = true ∧ q.rawJson = r.rawJson)
      ↔ (heartbeatRetention db).events[k]? = some r := by
  constructor
  · rintro ⟨l, q, hl, -, heq⟩
    have hq := archived_of_survives hl
    have hkey : l = k := by
      rw [← ha.tables.rawJson_id hq, heq, ha.tables.rawJson_id hk]
    subst hkey
    rw [hk] at hq
    exact Option.some.inj hq ▸ hl
  · exact fun hsurvives => ⟨k, r, hsurvives, hkind, rfl⟩

/-- What the pipeline archives of the feed, `r` is of it. -/
def Kept (X : Externals F) (P : Policy) (db₀ : Db F) (calls : List Call) (r : EventRecord) :
    Prop :=
  ∃ (k : String) (q : EventRecord), (ingestAll X P calls db₀).events[k]? = some q
    ∧ q.rawJson = r.rawJson

/-- Of an announcement the two say the same, unless it has no tags. -/
theorem announcement_agrees (ha : Archive X P db) (hf : Feed X P db db₀ calls)
    (hbare : NoBareRepeat db) {r : EventRecord} (hr : db.events[r.id]? = some r)
    (hkind : announces r.kind = true) :
    (heartbeatRetention db).events[r.id]? = some r ↔ Kept X P db₀ calls r := by
  rw [Kept, announcement_survives_iff ha.tables hr hkind,
    announcement_archived_iff ha hf hr hkind, not_iff_not]
  constructor
  · rintro ⟨p, hprecedes, hcontent, -, htags⟩
    exact ⟨p, hprecedes, hcontent, htags⟩
  · rintro ⟨p, hprecedes, hcontent, htags⟩
    refine ⟨p, hprecedes, hcontent, fun hnil => ?_, htags⟩
    have hperm := sameTags_iff.mp htags
    rw [hnil] at hperm
    exact hbare _ r p hr hkind hprecedes hnil (List.perm_nil.mp hperm) hcontent

/-- Of a snapshot the two say the same, unless its hour does not end. -/
theorem snapshot_agrees (ha : Archive X P db) (hf : Feed X P db db₀ calls)
    (hlone : OneInLastHour db) {r : EventRecord} (hr : db.events[r.id]? = some r)
    {s : RateSnapshot F} (hs : readRates X r.rawJson = some s) :
    (heartbeatRetention db).events[r.id]? = some r ↔ Kept X P db₀ calls r := by
  have hrow := ha.tables.rates.complete _ r s hr hs id
  rw [Kept, snapshot_survives_iff ha.tables hr hrow, snapshot_archived_iff ha hf hr hs,
    not_iff_not]
  constructor
  · rintro ⟨l, t, hl, hpubkey, hhour, hlt⟩
    refine ⟨l, t, hl, ⟨hpubkey, hhour⟩, ?_, hlt⟩
    by_contra hends
    rw [hlone _ l s t hrow hl ⟨hpubkey, hhour⟩ hends] at hlt
    exact lt_irrefl _ hlt
  · rintro ⟨l, t, hl, ⟨hpubkey, hhour⟩, -, hlt⟩
    exact ⟨l, t, hl, hpubkey, hhour, hlt⟩

/-- A heartbeat is one or the other. -/
theorem heartbeat_agrees (ha : Archive X P db) (hf : Feed X P db db₀ calls)
    (hbare : NoBareRepeat db) (hlone : OneInLastHour db) {r : EventRecord}
    (hr : db.events[r.id]? = some r) (hkind : heartbeat r.kind = true) :
    (heartbeatRetention db).events[r.id]? = some r ↔ Kept X P db₀ calls r := by
  by_cases hannounces : announces r.kind = true
  · exact announcement_agrees ha hf hbare hr hannounces
  · have hrates : r.rawJson.kind = ratesKind := by
      rw [heartbeat, Bool.or_eq_true, or_iff_right hannounces, beq_iff_eq] at hkind
      rw [← (columns ha hr).2.2.1, hkind]
    obtain ⟨parsed, hp⟩ := ha.parsed _ r hr hkind
    obtain ⟨s, hs⟩ := exists_readRates hrates hp
    exact snapshot_agrees ha hf hlone hr hs

/-- Where they agree, no announcement without tags is repeated: the migration leaves
    it and the pipeline does not archive it. -/
theorem noBareRepeat_of_agree (ha : Archive X P db) (hf : Feed X P db db₀ calls)
    (hagree : Agree X P db db₀ calls) : NoBareRepeat db := by
  intro k r p hk hkind hprecedes hbare hbare' hcontent
  have hr : db.events[r.id]? = some r := (ha.tables.keyed _ _ hk).1.symm ▸ hk
  have hsurvives := (announcement_survives_iff ha.tables hr hkind).mpr
    fun ⟨_, _, _, htags, _⟩ => htags hbare
  have harchived := (hagree r.rawJson).mp
    ((survives_iff_row ha hr (announces_heartbeat hkind)).mpr hsurvives)
  refine (announcement_archived_iff ha hf hr hkind).mp harchived ⟨p, hprecedes, hcontent, ?_⟩
  rw [sameTags_iff, hbare, hbare']

/-- Where they agree, a snapshot of an hour that does not end is its first: the
    pipeline archives any, the migration the first. -/
theorem not_later_of_agree (ha : Archive X P db) (hf : Feed X P db db₀ calls)
    (hagree : Agree X P db db₀ calls) {k l : String} {s t : RateSnapshot F}
    (hs : db.rates[k]? = some s) (ht : db.rates[l]? = some t) (hhour : OneHour t s)
    (hends : ¬ Ends s) : ¬ published t < published s := by
  intro hlt
  obtain ⟨r, hk, hread, -, -⟩ := rates_origin ha.tables hs
  have hkind : heartbeat r.kind = true := heartbeat_of_readRates ha hk hread
  have hr : db.events[r.id]? = some r := (ha.tables.keyed _ _ hk).1.symm ▸ hk
  have harchived := (snapshot_archived_iff ha hf hr hread).mpr
    fun ⟨_, _, _, _, hends', _⟩ => hends hends'
  have hsurvives := (survives_iff_row ha hk hkind).mp ((hagree r.rawJson).mpr harchived)
  exact (snapshot_survives_iff ha.tables hk hs).mp hsurvives ⟨l, t, ht, hhour.1, hhour.2, hlt⟩

/-- Of two of one such hour neither is the earlier, so they are one. -/
theorem oneInLastHour_of_agree (ha : Archive X P db) (hf : Feed X P db db₀ calls)
    (hagree : Agree X P db db₀ calls) : OneInLastHour db := by
  intro k l s t hs ht hhour hends
  have hhour' : OneHour s t := ⟨hhour.1.symm, hhour.2.symm⟩
  have hends' : ¬ Ends t := by
    rw [Ends, hhour.2]
    exact hends
  have heq : published t = published s := le_antisymm
    (not_lt.mp (not_later_of_agree ha hf hagree ht hs hhour' hends'))
    (not_lt.mp (not_later_of_agree ha hf hagree hs ht hhour hends))
  have hid : t.eventId = s.eventId := congrArg (fun c => (ofLex c).2) heq
  obtain ⟨-, -, -, hsid, -⟩ := rates_origin ha.tables hs
  obtain ⟨-, -, -, htid, -⟩ := rates_origin ha.tables ht
  rw [hsid, htid] at hid
  subst hid
  exact Option.some.inj (ht.symm.trans hs)

/-- **THE MIGRATION IS THE PIPELINE'S RULE**, but for announcements without tags, of
    which it drops none, and for an hour that ends in no instant, of which the
    pipeline drops none. -/
theorem retention_agrees_iff (ha : Archive X P db) (hf : Feed X P db db₀ calls) :
    Agree X P db db₀ calls ↔ NoBareRepeat db ∧ OneInLastHour db := by
  constructor
  · intro hagree
    exact ⟨noBareRepeat_of_agree ha hf hagree, oneInLastHour_of_agree ha hf hagree⟩
  · rintro ⟨hbare, hlone⟩ e
    -- What was not fed is on neither side.
    by_cases hfed : e ∈ calls.map Call.event
    · obtain ⟨r, hk, rfl, hkind⟩ := row_of_fed ha hf hfed
      have hr : db.events[r.id]? = some r := (ha.tables.keyed _ _ hk).1.symm ▸ hk
      rw [survives_iff_row ha hr hkind]
      exact heartbeat_agrees ha hf hbare hlone hr hkind
    · constructor
      · rintro ⟨k, r, hk, hkind, rfl⟩
        exact absurd ((hf.whole _).mpr ⟨k, r, archived_of_survives hk, hkind, rfl⟩) hfed
      · rintro ⟨k, q, hk, rfl⟩
        have hkept := ((fed_of_feed ha hf).keyed k q hk).2.2
        exact absurd ((keep_sublist _).subset hkept) hfed

end Feeding

/-! ## Two lists of no relays -/

/-- A relay list that names no relay. -/
def bareList (id : String) (createdAt : UInt64) : Event where
  id := id
  pubkey := Convergence.alice
  createdAt := createdAt
  kind := relayListKind
  tags := []
  content := ""
  sig := ""

def firstList : Event :=
  bareList "6000000000000000000000000000000000000000000000000000000000000001" 1785600000

def secondList : Event :=
  bareList "6000000000000000000000000000000000000000000000000000000000000002" 1785600060

def bareLists : Externals Int := Externals.over [firstList, secondList] (by decide) []

def firstCall : Call := ⟨firstList, "wss://a", 1785600061⟩

def secondCall : Call := ⟨secondList, "wss://a", 1785600061⟩

/-- Both are archived: the backfill brought the later one first. -/
def bothLists : Db Int := ingestAll bareLists Thinning.listed [secondCall, firstCall] Db.empty

theorem rows_bothLists :
    (rows bothLists.events fun _ => true) = [firstCall.record, secondCall.record] := by
  decide +kernel

theorem cases_bothLists {k : String} {r : EventRecord} (hk : bothLists.events[k]? = some r) :
    r = firstCall.record ∨ r = secondCall.record := by
  have hmem : r ∈ rows bothLists.events fun _ => true := mem_rows.mpr ⟨⟨k, hk⟩, rfl⟩
  rw [rows_bothLists] at hmem
  simpa using hmem

theorem archive_bothLists : Archive bareLists Thinning.listed bothLists where
  tables := (ingestAll_settled _ settled_empty).tables
  admitted := by
    intro k r hk _
    rcases cases_bothLists hk with rfl | rfl
    · decide +kernel
    · decide +kernel
  parsed := by
    intro k r hk _
    rcases cases_bothLists hk with rfl | rfl
    · exact ⟨.relayList ⟨firstList.id, Convergence.alice, 1785600000, []⟩, rfl⟩
    · exact ⟨.relayList ⟨secondList.id, Convergence.alice, 1785600060, []⟩, rfl⟩
  apart := by
    intro k l r q hk hl _ _ hclock
    rcases cases_bothLists hk with rfl | rfl
    · rcases cases_bothLists hl with rfl | rfl
      · rfl
      · exact absurd hclock (by decide)
    · rcases cases_bothLists hl with rfl | rfl
      · exact absurd hclock (by decide)
      · rfl

theorem feed_bothLists :
    Feed bareLists Thinning.listed bothLists Db.empty [firstCall, secondCall] where
  whole := by
    intro e
    have hlist : e ∈ [firstCall, secondCall].map Call.event ↔ e = firstList ∨ e = secondList := by
      simp [firstCall, secondCall]
    rw [hlist]
    constructor
    · rintro (rfl | rfl)
      · exact ⟨firstList.id, firstCall.record, by decide +kernel, rfl, rfl⟩
      · exact ⟨secondList.id, secondCall.record, by decide +kernel, rfl, rfl⟩
    · rintro ⟨k, r, hk, -, rfl⟩
      rcases cases_bothLists hk with rfl | rfl
      · exact .inl rfl
      · exact .inr rfl
  once := by decide
  announcements := by decide
  snapshots := by
    refine List.pairwise_pair.mpr fun s t hs _ => ?_
    exact absurd (not_announces_of_readRates hs) (by decide)
  events := rfl
  rates := rfl
  vouched := by decide +kernel

/-- The rule and the migration, over the two lists. -/
theorem retention_agrees_bothLists :
    Agree bareLists Thinning.listed bothLists Db.empty [firstCall, secondCall]
      ↔ NoBareRepeat bothLists ∧ OneInLastHour bothLists :=
  retention_agrees_iff archive_bothLists feed_bothLists

/-- **A LIST OF NO RELAYS SURVIVES ITS REPETITION**: the pipeline archives the first,
    the migration leaves both. -/
theorem bareList_survives :
    Archive bareLists Thinning.listed bothLists
      ∧ Feed bareLists Thinning.listed bothLists Db.empty [firstCall, secondCall]
      ∧ ¬ Agree bareLists Thinning.listed bothLists Db.empty [firstCall, secondCall] := by
  refine ⟨archive_bothLists, feed_bothLists, fun hagree => ?_⟩
  have hsurvives : (heartbeatRetention bothLists).events[secondList.id]?
      = some secondCall.record := by decide +kernel
  have hfed : (rows (ingestAll bareLists Thinning.listed [firstCall, secondCall]
      Db.empty).events fun _ => true) = [firstCall.record] := by decide +kernel
  obtain ⟨k, r, hk, hr⟩ := (hagree secondList).mp ⟨_, _, hsurvives, rfl, rfl⟩
  have hmem : r ∈ rows (ingestAll bareLists Thinning.listed [firstCall, secondCall]
      Db.empty).events fun _ => true := mem_rows.mpr ⟨⟨k, hk⟩, rfl⟩
  rw [hfed, List.mem_singleton] at hmem
  rw [hmem] at hr
  exact absurd hr (by decide)

end Migration
