import Bestiario.Lib.Json
import Bestiario.Lib.Retain
import Bestiario.Retention
import Bestiario.Thinning

/-! # Heartbeat retention, after the fact

    `migrations/0005_heartbeat_retention.sql`: the retention rule applied to what was
    archived before there was one.  The pipeline compares an event with what it KEPT;
    the migration reads the whole table through windows, and compares a row with the
    row immediately before it, whatever becomes of that one.

    Tags are compared as one text: each tag's JSON, sorted and joined by the unit
    separator.  Of no tags there is no text but a `NULL`, which equals nothing. -/

namespace Migration

open Keyed Wire Parse Repo Pipeline Derived Retain

variable {F : Type} {X : Externals F} {db : Db F}

/-! ## The statements -/

/-- `kind IN (10002, 38385)`. -/
def announces (kind : UInt16) : Bool := [relayListKind, infoKind].contains kind

/-- A value of `json_each(raw_json, '$.tags')`: the tag's JSON. -/
def tagText (tag : List String) : String := Json.text (.arr (tag.map .str))

/-- `group_concat(value, char(31))`: `NULL` over no rows. -/
def groupConcat (values : List String) : Option String :=
  if values.isEmpty then none
  else some (String.ofList (List.intercalate ['\x1f'] (values.map String.toList)))

/-- The `tags` of the inner query. -/
def tags (e : Event) : Option String :=
  groupConcat ((e.tags.map tagText).insertionSort (· ≤ ·))

/-- `=` in a `WHERE`: true of two values that are equal, not of a `NULL`. -/
def equals (a b : Option String) : Bool := a.isSome && a == b

/-- `PARTITION BY pubkey, kind, d_tag`. -/
def address (r : EventRecord) : String × UInt16 × Option String := (r.pubkey, r.kind, r.dTag)

/-- `ORDER BY created_at, id`. -/
def created : EventRecord → ℤ ×ₗ String := ascAsc EventRecord.createdAt EventRecord.id

/-- The row `LAG` reads. -/
def preceding (db : Db F) (r : EventRecord) : Option EventRecord :=
  lag created db.events (fun p => announces p.kind && address p == address r) r

/-- `content = previous_content AND tags = previous_tags`. -/
def repeatsPreceding (db : Db F) (r : EventRecord) : Bool :=
  let previous := preceding db r
  equals (some r.rawJson.content) (previous.map fun p => p.rawJson.content)
    && equals (tags r.rawJson) (previous.bind fun p => tags p.rawJson)

/-- `published_at - (published_at % 3600)`: SQL's remainder has the sign of its
    dividend. -/
def hour (publishedAt : Int) : Int := publishedAt - publishedAt.tmod 3600

/-- `ORDER BY published_at, event_id`. -/
def published : RateSnapshot F → ℤ ×ₗ String :=
  ascAsc RateSnapshot.publishedAt RateSnapshot.eventId

/-- `ROW_NUMBER` among the publisher's snapshots of the hour. -/
def position (db : Db F) (s : RateSnapshot F) : Nat :=
  rowNumber published db.rates
    (fun t => t.pubkey == s.pubkey && hour t.publishedAt == hour s.publishedAt) s

/-- The temporary table `redundant_heartbeats`. -/
def redundantHeartbeats (db : Db F) : List String :=
  (rows db.events fun r => announces r.kind && repeatsPreceding db r).map EventRecord.id
    ++ (rows db.rates fun s => decide (1 < position db s)).map RateSnapshot.eventId

/-- The three `DELETE`s. -/
def heartbeatRetention (db : Db F) : Db F :=
  let redundant := redundantHeartbeats db
  { db with
    instanceInfo := db.instanceInfo.filter fun _ row => !redundant.contains row.eventId
    rates := db.rates.filter fun _ row => !redundant.contains row.eventId
    events := db.events.filter fun _ row => !redundant.contains row.id }

/-! ## Tags as one text -/

theorem tagText_inj {a b : List String} (h : tagText a = tagText b) : a = b :=
  Json.text_strings_inj h

/-- The separator is in no tag's text. -/
theorem separator_not_mem (tag : List String) : '\x1f' ∉ (tagText tag).toList := by
  intro hmem
  exact absurd (Json.text_strings_printable tag _ hmem) (by decide)

theorem groupConcat_inj {values values' : List String}
    (hplain : ∀ v ∈ values, '\x1f' ∉ v.toList) (hplain' : ∀ v ∈ values', '\x1f' ∉ v.toList)
    (hne : values ≠ []) (h : groupConcat values = groupConcat values') : values = values' := by
  have hsplit : ∀ {vs : List String}, (∀ v ∈ vs, '\x1f' ∉ v.toList) → vs ≠ [] →
      (List.intercalate ['\x1f'] (vs.map String.toList)).splitOn '\x1f'
        = vs.map String.toList := by
    intro vs hvs hnil
    refine List.splitOn_intercalate '\x1f' ?_ (fun heq => hnil (List.map_eq_nil_iff.mp heq))
    intro l hl
    obtain ⟨v, hv, rfl⟩ := List.mem_map.mp hl
    exact hvs v hv
  have hempty : ∀ {vs : List String}, vs ≠ [] → vs.isEmpty = false :=
    fun h => List.isEmpty_eq_false_iff.mpr h
  have hne' : values' ≠ [] := by
    rintro rfl
    rw [groupConcat, hempty hne, if_neg Bool.false_ne_true] at h
    exact nomatch h
  rw [groupConcat, groupConcat, hempty hne, hempty hne', if_neg Bool.false_ne_true,
    if_neg Bool.false_ne_true] at h
  have hchars := String.ofList_inj.mp (Option.some.inj h)
  have hlists := (hsplit hplain hne).symm.trans
    ((congrArg (List.splitOn '\x1f') hchars).trans (hsplit hplain' hne'))
  exact List.map_injective_iff.mpr (fun _ _ heq => String.toList_inj.mp heq) hlists

/-- Sorted alike is permuted. -/
theorem insertionSort_eq_iff {α : Type} [LinearOrder α] {xs ys : List α} :
    xs.insertionSort (· ≤ ·) = ys.insertionSort (· ≤ ·) ↔ xs.Perm ys := by
  constructor
  · intro h
    have hx := List.perm_insertionSort (· ≤ ·) xs
    rw [h] at hx
    exact hx.symm.trans (List.perm_insertionSort (· ≤ ·) ys)
  · intro h
    refine List.Perm.eq_of_pairwise (fun a b _ _ hab hba => le_antisymm hab hba)
      (List.pairwise_insertionSort (· ≤ ·) xs) (List.pairwise_insertionSort (· ≤ ·) ys) ?_
    exact (List.perm_insertionSort (· ≤ ·) xs).trans
      (h.trans (List.perm_insertionSort (· ≤ ·) ys).symm)

theorem sameTags_iff {a b : Event} : Heartbeats.sameTags a b = true ↔ a.tags.Perm b.tags := by
  rw [Heartbeats.sameTags, beq_iff_eq, insertionSort_eq_iff]

/-- **THE TEXTS ARE EQUAL WHEN THE TAGS ARE THE SAME, AND THERE ARE ANY.** -/
theorem equals_tags_iff {a b : Event} :
    equals (tags a) (tags b) = true ↔ a.tags ≠ [] ∧ Heartbeats.sameTags b a = true := by
  have hplain : ∀ e : Event, ∀ v ∈ (e.tags.map tagText).insertionSort (· ≤ ·),
      '\x1f' ∉ v.toList := by
    intro e v hv
    obtain ⟨tag, -, rfl⟩ := List.mem_map.mp ((List.mem_insertionSort _).mp hv)
    exact separator_not_mem tag
  have hnil : (tags a).isSome = true ↔ a.tags ≠ [] := by
    rw [tags, groupConcat]
    cases htags : a.tags with
    | nil => simp
    | cons tag rest =>
        have hsort : ((tag :: rest).map tagText).insertionSort (· ≤ ·) ≠ [] := by
          intro heq
          have hlength := congrArg List.length heq
          rw [List.length_insertionSort] at hlength
          exact nomatch hlength
        rw [List.isEmpty_eq_false_iff.mpr hsort]
        simp
  rw [equals, Bool.and_eq_true, hnil, beq_iff_eq]
  refine and_congr_right fun hne => ?_
  rw [sameTags_iff]
  constructor
  · intro heq
    have hsort : (a.tags.map tagText).insertionSort (· ≤ ·) ≠ [] := by
      intro hsorted
      have hlength := congrArg List.length hsorted
      rw [List.length_insertionSort, List.length_map] at hlength
      exact hne (List.length_eq_zero_iff.mp hlength)
    have hsorted := groupConcat_inj (hplain a) (hplain b) hsort heq
    have hperm := insertionSort_eq_iff.mp hsorted
    exact ((List.map_perm_map_iff fun _ _ h => tagText_inj h).mp hperm).symm
  · intro hperm
    rw [tags, tags, insertionSort_eq_iff.mpr (hperm.symm.map tagText)]

/-! ## Hours -/

/-- After the epoch SQL's hour is the pipeline's. -/
theorem hour_eq_bucketOf {publishedAt : Int} (h : 0 ≤ publishedAt) :
    hour publishedAt = Heartbeats.bucketOf publishedAt := by
  rw [hour, Int.tmod_eq_emod_of_nonneg h]
  rfl

/-! ## What survives -/

/-- `p` is the version immediately before `r`, of one address. -/
structure Precedes (db : Db F) (p r : EventRecord) : Prop where
  archived : ∃ k : String, db.events[k]? = some p
  announces : announces p.kind = true
  address : address p = address r
  before : created p < created r
  last : ∀ (k : String) q, db.events[k]? = some q → Migration.announces q.kind = true →
    Migration.address q = Migration.address r → created q < created r → created q ≤ created p

theorem created_inj (h : Consistent X db fun _ => False) (a b : EventRecord)
    (ha : ∃ k : String, db.events[k]? = some a) (hb : ∃ k : String, db.events[k]? = some b)
    (heq : created a = created b) : a = b := by
  obtain ⟨k, hk⟩ := ha
  obtain ⟨l, hl⟩ := hb
  have hid : a.id = b.id := congrArg (fun c => (ofLex c).2) heq
  rw [(h.keyed k a hk).1, (h.keyed l b hl).1] at hid
  subst hid
  exact Option.some.inj (hk.symm.trans hl)

theorem preceding_eq_some_iff (h : Consistent X db fun _ => False) {p r : EventRecord} :
    preceding db r = some p ↔ Precedes db p r := by
  rw [preceding, lag_eq_some_iff (created_inj h), mem_ahead, Bool.and_eq_true, beq_iff_eq]
  constructor
  · rintro ⟨⟨⟨harchived, hannounces, haddress⟩, hbefore⟩, hlast⟩
    refine ⟨harchived, hannounces, haddress, hbefore, fun k q hq hqa hqaddr hqlt => ?_⟩
    refine hlast q (mem_ahead.mpr ⟨⟨⟨k, hq⟩, ?_⟩, hqlt⟩)
    rw [Bool.and_eq_true, beq_iff_eq]
    exact ⟨hqa, hqaddr⟩
  · intro hp
    refine ⟨⟨⟨hp.archived, hp.announces, hp.address⟩, hp.before⟩, fun q hq => ?_⟩
    obtain ⟨⟨⟨k, hk⟩, hsel⟩, hlt⟩ := mem_ahead.mp hq
    rw [Bool.and_eq_true, beq_iff_eq] at hsel
    exact hp.last k q hk hsel.1 hsel.2 hlt

/-- A version goes for the one before it. -/
theorem repeatsPreceding_iff (h : Consistent X db fun _ => False) {r : EventRecord} :
    repeatsPreceding db r = true ↔ ∃ p, Precedes db p r
      ∧ p.rawJson.content = r.rawJson.content ∧ r.rawJson.tags ≠ []
      ∧ Heartbeats.sameTags p.rawJson r.rawJson = true := by
  have hsome := fun p => preceding_eq_some_iff (p := p) (r := r) h
  rw [repeatsPreceding]
  cases hp : preceding db r with
  | none =>
      constructor
      · intro hrepeats
        exact nomatch (Bool.and_eq_true_iff.mp hrepeats).1
      · rintro ⟨p, hprecedes, -⟩
        rw [hp] at hsome
        exact nomatch (hsome p).mpr hprecedes
  | some p =>
      have hcontent : equals (some r.rawJson.content) (some p.rawJson.content) = true
          ↔ p.rawJson.content = r.rawJson.content := by
        rw [equals, Option.isSome_some, Bool.true_and, beq_iff_eq, Option.some.injEq]
        exact eq_comm
      show (equals (some r.rawJson.content) (some p.rawJson.content)
        && equals (tags r.rawJson) (tags p.rawJson)) = true ↔ _
      rw [Bool.and_eq_true, hcontent, equals_tags_iff]
      constructor
      · rintro ⟨hsame, hne, htags⟩
        exact ⟨p, (hsome p).mp hp, hsame, hne, htags⟩
      · rintro ⟨q, hq, hsame, hne, htags⟩
        have heq := (hsome q).mpr hq
        rw [hp] at heq
        cases heq
        exact ⟨hsame, hne, htags⟩

/-- A snapshot goes for an earlier one of its publisher and hour. -/
theorem one_lt_position_iff (h : Consistent X db fun _ => False) {s : RateSnapshot F}
    (hs : 0 ≤ s.publishedAt) :
    1 < position db s ↔ ∃ (k : String) (t : RateSnapshot F), db.rates[k]? = some t
      ∧ t.pubkey = s.pubkey
      ∧ Heartbeats.bucketOf t.publishedAt = Heartbeats.bucketOf s.publishedAt
      ∧ published t < published s := by
  have hbucket : ∀ {k : String} {t : RateSnapshot F}, db.rates[k]? = some t →
      (hour t.publishedAt = hour s.publishedAt
        ↔ Heartbeats.bucketOf t.publishedAt = Heartbeats.bucketOf s.publishedAt) := by
    intro k t ht
    obtain ⟨r, -, hread⟩ := h.rates.sound k t ht
    rw [hour_eq_bucketOf (Thinning.publishedAt_bounds hread).1, hour_eq_bucketOf hs]
  rw [position, one_lt_rowNumber_iff]
  constructor
  · rintro ⟨t, ht⟩
    obtain ⟨⟨⟨k, hk⟩, hsel⟩, hlt⟩ := mem_ahead.mp ht
    rw [Bool.and_eq_true, beq_iff_eq, beq_iff_eq] at hsel
    exact ⟨k, t, hk, hsel.1, (hbucket hk).mp hsel.2, hlt⟩
  · rintro ⟨k, t, hk, hpubkey, hhour, hlt⟩
    refine ⟨t, mem_ahead.mpr ⟨⟨⟨k, hk⟩, ?_⟩, hlt⟩⟩
    rw [Bool.and_eq_true, beq_iff_eq, beq_iff_eq]
    exact ⟨hpubkey, (hbucket hk).mpr hhour⟩

theorem getElem?_heartbeatRetention (k : String) :
    (heartbeatRetention db).events[k]?
      = (db.events[k]?).filter fun row => !(redundantHeartbeats db).contains row.id :=
  Std.ExtTreeMap.getElem?_filter'

theorem archived_of_survives {k : String} {r : EventRecord}
    (h : (heartbeatRetention db).events[k]? = some r) : db.events[k]? = some r := by
  rw [getElem?_heartbeatRetention, Option.filter_eq_some_iff] at h
  exact h.1

/-- A row survives when its id is not in the temporary table. -/
theorem events_heartbeatRetention {k : String} {r : EventRecord} (hk : db.events[k]? = some r) :
    (heartbeatRetention db).events[k]? = some r ↔ r.id ∉ redundantHeartbeats db := by
  rw [getElem?_heartbeatRetention, hk, Option.filter_eq_some_iff, Bool.not_eq_true',
    List.contains_eq_mem, decide_eq_false_iff_not]
  exact and_iff_right rfl

theorem mem_redundantHeartbeats {id : String} :
    id ∈ redundantHeartbeats db
      ↔ (∃ (k : String) (r : EventRecord), db.events[k]? = some r ∧ announces r.kind = true
          ∧ repeatsPreceding db r = true ∧ r.id = id)
        ∨ ∃ (k : String) (s : RateSnapshot F), db.rates[k]? = some s ∧ 1 < position db s
          ∧ s.eventId = id := by
  rw [redundantHeartbeats, List.mem_append, List.mem_map, List.mem_map]
  refine or_congr ?_ ?_
  · constructor
    · rintro ⟨r, hr, hid⟩
      obtain ⟨⟨k, hk⟩, hsel⟩ := mem_rows.mp hr
      rw [Bool.and_eq_true] at hsel
      exact ⟨k, r, hk, hsel.1, hsel.2, hid⟩
    · rintro ⟨k, r, hk, hannounces, hrepeats, hid⟩
      refine ⟨r, mem_rows.mpr ⟨⟨k, hk⟩, ?_⟩, hid⟩
      rw [Bool.and_eq_true]
      exact ⟨hannounces, hrepeats⟩
  · constructor
    · rintro ⟨s, hs, hid⟩
      obtain ⟨⟨k, hk⟩, hsel⟩ := mem_rows.mp hs
      exact ⟨k, s, hk, decide_eq_true_iff.mp hsel, hid⟩
    · rintro ⟨k, s, hk, hposition, hid⟩
      exact ⟨s, mem_rows.mpr ⟨⟨k, hk⟩, decide_eq_true_iff.mpr hposition⟩, hid⟩

/-- A snapshot is filed under its event's id, and its event is no announcement. -/
theorem rates_origin (h : Consistent X db fun _ => False) {k : String} {s : RateSnapshot F}
    (hk : db.rates[k]? = some s) :
    ∃ r, db.events[k]? = some r ∧ readRates X r.rawJson = some s ∧ s.eventId = k
      ∧ announces r.kind = false := by
  obtain ⟨r, hr, hread⟩ := h.rates.sound k s hk
  refine ⟨r, hr, hread, ?_, ?_⟩
  · rw [(readRates_origin hread).1, h.rawJson_id hr]
  · have hkind : r.rawJson.kind = ratesKind := readRates_kind hread
    have hrow : r.kind = r.rawJson.kind := congrArg EventRecord.kind (h.keyed k r hr).2
    rw [hrow, hkind]
    rfl

/-- **AN ANNOUNCEMENT SURVIVES** unless it repeats the version before it, tags and
    all, and has tags. -/
theorem announcement_survives_iff (h : Consistent X db fun _ => False) {k : String}
    {r : EventRecord} (hk : db.events[k]? = some r) (hkind : announces r.kind = true) :
    (heartbeatRetention db).events[k]? = some r ↔ ¬ ∃ p, Precedes db p r
      ∧ p.rawJson.content = r.rawJson.content ∧ r.rawJson.tags ≠ []
      ∧ Heartbeats.sameTags p.rawJson r.rawJson = true := by
  rw [events_heartbeatRetention hk, mem_redundantHeartbeats, ← repeatsPreceding_iff h, not_iff_not]
  constructor
  · rintro (⟨l, q, hl, -, hrepeats, hid⟩ | ⟨l, s, hl, -, hid⟩)
    · rw [(h.keyed l q hl).1, (h.keyed k r hk).1] at hid
      subst hid
      rw [hl] at hk
      exact Option.some.inj hk ▸ hrepeats
    · obtain ⟨q, hq, -, hkey, hno⟩ := rates_origin h hl
      rw [hkey, (h.keyed k r hk).1] at hid
      subst hid
      rw [hq] at hk
      rw [Option.some.inj hk, hkind] at hno
      exact nomatch hno
  · exact fun hrepeats => Or.inl ⟨k, r, hk, hkind, hrepeats, rfl⟩

/-- **A SNAPSHOT SURVIVES** when it is the first of its publisher and hour. -/
theorem snapshot_survives_iff (h : Consistent X db fun _ => False) {k : String}
    {r : EventRecord} {s : RateSnapshot F} (hk : db.events[k]? = some r)
    (hs : db.rates[k]? = some s) :
    (heartbeatRetention db).events[k]? = some r ↔ ¬ ∃ (l : String) (t : RateSnapshot F),
      db.rates[l]? = some t ∧ t.pubkey = s.pubkey
        ∧ Heartbeats.bucketOf t.publishedAt = Heartbeats.bucketOf s.publishedAt
        ∧ published t < published s := by
  obtain ⟨q, hq, hread, hkey, hno⟩ := rates_origin h hs
  rw [hk] at hq
  cases hq
  rw [events_heartbeatRetention hk, mem_redundantHeartbeats,
    ← one_lt_position_iff h (Thinning.publishedAt_bounds hread).1, not_iff_not]
  constructor
  · rintro (⟨l, p, hl, hannounces, -, hid⟩ | ⟨l, t, hl, hposition, hid⟩)
    · rw [(h.keyed l p hl).1, (h.keyed k r hk).1] at hid
      subst hid
      rw [hk] at hl
      rw [← Option.some.inj hl, hno] at hannounces
      exact nomatch hannounces
    · obtain ⟨-, -, -, hkey', -⟩ := rates_origin h hl
      rw [hkey', (h.keyed k r hk).1] at hid
      subst hid
      rw [hs] at hl
      exact Option.some.inj hl ▸ hposition
  · exact fun hposition => Or.inr ⟨k, s, hs, hposition, hkey.trans (h.keyed k r hk).1.symm⟩

end Migration
