import Bestiario.Admission
import Bestiario.Sightings
import Bestiario.Thinning

/-! # The bestiary

    `instances` and `instance_names`, row by row.  The row of a publisher is
    folded in order of arrival: when it was first and last seen, and the name of
    the newest event that carries one.  Three things make the order show:

    * two named events of one second, where the later arrival wins;
    * a heartbeat that repeats an older one, whose name is not recorded when the
      older one came first;
    * an event that needs its publisher vouched for, which leaves no trace when
      nothing vouches for it yet.

    `Steady` says of a set of events that none of the three shows.  `Labels` ties
    the names to the archive and `Told` ties the archive to what was received;
    of a steady set they leave one row per publisher (`Portrait`). -/

namespace Bestiary

open Keyed Wire Parse Repo Pipeline Derived

variable {F : Type} {X : Externals F} {P : Policy} {S : Finset Event} {db : Db F}

/-! ## Sets of events -/

/-- The events of a publisher that the parsers read. -/
def voices (X : Externals F) (A : Set Event) (pubkey : String) : Set Event :=
  {e | e ∈ A ∧ e.pubkey = pubkey ∧ ∃ parsed, parse X e = .ok parsed}

/-- The events that carry a name. -/
def naming (A : Set Event) : Set Event := {e | e ∈ A ∧ instanceName e ≠ none}

/-- The events that carry this name. -/
def calling (A : Set Event) (name : String) : Set Event :=
  {e | e ∈ A ∧ instanceName e = some name}

/-- An event of the set, and none of it is newer. -/
def Newest (A : Set Event) (e : Event) : Prop := e ∈ A ∧ ∀ f ∈ A, f.at ≤ e.at

/-- What is archived. -/
def archive (db : Db F) : Set Event :=
  {e | ∃ (k : String) (r : EventRecord), db.events[k]? = some r ∧ r.rawJson = e}

/-- The calls deliver the set: each event at least once, from anywhere, in any
    order. -/
def Receives (S : Finset Event) (calls : List Call) : Prop :=
  ∀ e, e ∈ S ↔ ∃ c ∈ calls, c.event = e

/-- The bestiary does not depend on the order, and a publisher's name is the one
    its most recent named event carries. -/
structure OrderFree (X : Externals F) (P : Policy) (S : Finset Event) : Prop where
  same : ∀ calls calls', Receives S calls → Receives S calls' →
    (ingestAll X P calls (Db.empty : Db F)).instances
        = (ingestAll X P calls' (Db.empty : Db F)).instances
      ∧ (ingestAll X P calls (Db.empty : Db F)).instanceNames
        = (ingestAll X P calls' (Db.empty : Db F)).instanceNames
  named : ∀ calls, Receives S calls → ∀ (pubkey : String) row,
    (ingestAll X P calls (Db.empty : Db F)).instances[pubkey]? = some row →
      ∀ e, Newest (naming {e | e ∈ S ∧ e.pubkey = pubkey}) e → row.name = instanceName e

/-! ## When no order shows -/

/-- Steps 4b lets the event in whatever came before it. -/
def Sure (P : Policy) (e : Event) : Prop :=
  untaggedKinds.contains e.kind = false ∨ P.listsInstance e.pubkey = true

/-- The publisher has a row in every order. -/
def Known (X : Externals F) (P : Policy) (S : Finset Event) (pubkey : String) : Prop :=
  ∃ e ∈ voices X S pubkey, Sure P e

/-- `f` says what `e` says. -/
structure Repeats (f e : Event) : Prop where
  pubkey : f.pubkey = e.pubkey
  kind : f.kind = e.kind
  content : f.content = e.content
  tags : Heartbeats.sameTags f e = true

/-- The replaceable announcements: the kinds step 6a compares with the version
    before. -/
def announcing : List UInt16 := [infoKind, relayListKind]

/-- Whatever the order, `e` or one of its name and second is archived. -/
structure Lasting (X : Externals F) (P : Policy) (S : Finset Event) (e : Event) : Prop where
  sure : Sure P e
  announced : e.kind ∈ announcing → ∀ f ∈ S, Repeats f e → e.at ≤ f.at
  priced : ∀ s, readRates X e = some s → ∀ f ∈ S, ∀ r, readRates X f = some r →
    Thinning.SameHour r s → instanceName f = instanceName e ∧ f.at = e.at

/-- **THE CONDITION** on the events of one publisher. -/
structure Steady (X : Externals F) (P : Policy) (S : Finset Event) (pubkey : String) :
    Prop where
  framed : ∀ e ∈ voices X S pubkey, ∃ f ∈ voices X S pubkey, ∃ g ∈ voices X S pubkey,
    Sure P f ∧ Sure P g ∧ f.at ≤ e.at ∧ e.at ≤ g.at
  kept : ∀ e ∈ voices X S pubkey, ∀ name, instanceName e = some name →
    ∃ f ∈ calling (voices X S pubkey) name, Lasting X P S f ∧ e.at ≤ f.at
  agreed : ∀ e, Newest (naming {e | e ∈ S ∧ e.pubkey = pubkey}) e →
    (∃ f, f ∈ naming (voices X S pubkey))
      ∧ ∀ f, Newest (naming (voices X S pubkey)) f → instanceName f = instanceName e

/-! ## One row -/

/-- What `upsert` makes of a publisher's row. -/
def entry (row : Option Instance) (pubkey : String) (name : Option String)
    (publishedAt : Int) : Instance :=
  match row with
  | some old => Instances.merged old name publishedAt
  | none => {
      pubkey, name, nameSeenAt := name.map fun _ => publishedAt
      firstSeenAt := publishedAt, lastSeenAt := publishedAt }

theorem getElem?_upsert (seen : String) (name : Option String) (publishedAt : Int)
    (db : Db F) (pubkey : String) :
    (Instances.upsert seen name publishedAt db).instances[pubkey]?
      = if seen = pubkey then some (entry db.instances[seen]? seen name publishedAt)
        else db.instances[pubkey]? := by
  rw [Instances.upsert, getElem?_insert_eq]
  by_cases hseen : seen = pubkey
  · rw [if_pos hseen, if_pos hseen]
    cases db.instances[seen]? with
    | none => rfl
    | some old => rfl
  · rw [if_neg hseen, if_neg hseen]

section Entry

variable (row : Option Instance) (pubkey : String) (name : Option String) (publishedAt : Int)

theorem merged_seen (old : Instance) :
    (Instances.merged old name publishedAt).pubkey = old.pubkey
      ∧ (Instances.merged old name publishedAt).firstSeenAt = min old.firstSeenAt publishedAt
      ∧ (Instances.merged old name publishedAt).lastSeenAt = max old.lastSeenAt publishedAt := by
  cases name with
  | none => exact ⟨rfl, rfl, rfl⟩
  | some name =>
      cases hseen : old.nameSeenAt with
      | none => simp only [Instances.merged, hseen, and_self]
      | some seen =>
          simp only [Instances.merged, hseen]
          split
          · exact ⟨rfl, rfl, rfl⟩
          · exact ⟨rfl, rfl, rfl⟩

theorem entry_pubkey (h : ∀ old, row = some old → old.pubkey = pubkey) :
    (entry row pubkey name publishedAt).pubkey = pubkey := by
  cases row with
  | none => rfl
  | some old => exact (merged_seen name publishedAt old).1.trans (h old rfl)

theorem entry_firstSeenAt :
    (entry row pubkey name publishedAt).firstSeenAt
      = lowered (row.map Instance.firstSeenAt) publishedAt := by
  cases row with
  | none => rfl
  | some old => exact (merged_seen name publishedAt old).2.1

theorem entry_lastSeenAt :
    (entry row pubkey name publishedAt).lastSeenAt
      = raised (row.map Instance.lastSeenAt) publishedAt := by
  cases row with
  | none => rfl
  | some old => exact (merged_seen name publishedAt old).2.2

/-- An event with no name never clears one. -/
theorem entry_unnamed :
    (entry row pubkey none publishedAt).name = row.bind Instance.name
      ∧ (entry row pubkey none publishedAt).nameSeenAt = row.bind Instance.nameSeenAt := by
  cases row with
  | none => exact ⟨rfl, rfl⟩
  | some old => exact ⟨rfl, rfl⟩

/-- A name wins unless a newer one has been seen. -/
theorem entry_named (label : String) :
    (∃ seen, row.bind Instance.nameSeenAt = some seen ∧ publishedAt < seen
        ∧ (entry row pubkey (some label) publishedAt).name = row.bind Instance.name
        ∧ (entry row pubkey (some label) publishedAt).nameSeenAt = some seen)
      ∨ (∀ seen, row.bind Instance.nameSeenAt = some seen → seen ≤ publishedAt)
        ∧ (entry row pubkey (some label) publishedAt).name = some label
        ∧ (entry row pubkey (some label) publishedAt).nameSeenAt = some publishedAt := by
  cases row with
  | none => exact .inr ⟨fun _ h => (nomatch h), rfl, rfl⟩
  | some old =>
      rw [Option.bind_some, Option.bind_some, entry]
      cases hseen : old.nameSeenAt with
      | none =>
          refine .inr ⟨fun _ h => (nomatch h), ?_⟩
          simp only [Instances.merged, hseen, and_self]
      | some seen =>
          simp only [Instances.merged, hseen]
          by_cases hnewer : publishedAt ≥ seen
          · rw [if_pos hnewer]
            refine .inr ⟨fun _ h => ?_, rfl, rfl⟩
            cases h
            exact hnewer
          · rw [if_neg hnewer]
            exact .inl ⟨seen, rfl, Int.lt_of_not_ge hnewer, rfl, rfl⟩

end Entry

/-! ## The names and the archive -/

/-- The names are those of the events of `A`, each as of the newest to carry it. -/
structure Labels (A : Set Event) (db : Db F) : Prop where
  unnamed : ∀ (pubkey : String) row, db.instances[pubkey]? = some row →
    row.nameSeenAt = none → row.name = none
  named : ∀ (pubkey : String) row seen, db.instances[pubkey]? = some row →
    row.nameSeenAt = some seen → ∃ e ∈ A, e.pubkey = pubkey ∧ e.at = seen
      ∧ instanceName e ≠ none ∧ instanceName e = row.name
  latest : ∀ e ∈ A, instanceName e ≠ none → ∃ row seen,
    db.instances[e.pubkey]? = some row ∧ row.nameSeenAt = some seen ∧ e.at ≤ seen
  listed : ∀ (pubkey name : String) seen, db.instanceNames[toLex (pubkey, name)]? = some seen →
    ∃ e ∈ A, e.pubkey = pubkey ∧ instanceName e = some name ∧ e.at = seen
  known : ∀ e ∈ A, ∀ name, instanceName e = some name → ∃ seen,
    db.instanceNames[toLex (e.pubkey, name)]? = some seen ∧ e.at ≤ seen

namespace Labels

variable {A : Set Event}

theorem congr {db' : Db F} (h : Labels A db) (hi : db'.instances = db.instances)
    (hn : db'.instanceNames = db.instanceNames) : Labels A db' := by
  obtain ⟨unnamed, named, latest, listed, known⟩ := h
  refine ⟨?_, ?_, ?_, ?_, ?_⟩
  · rw [hi]
    exact unnamed
  · rw [hi]
    exact named
  · rw [hi]
    exact latest
  · rw [hn]
    exact listed
  · rw [hn]
    exact known

/-- **STEP**: a sign of life without a name. -/
theorem upsert_none (h : Labels A db) (seen : String) (publishedAt : Int) :
    Labels A (Instances.upsert seen none publishedAt db) := by
  have hlook := getElem?_upsert seen none publishedAt db
  obtain ⟨hname, hat⟩ := entry_unnamed db.instances[seen]? seen publishedAt
  refine ⟨fun pubkey row hrow hnone => ?_, fun pubkey row stamp hrow hsome => ?_,
    fun e he hnamed => ?_, h.listed, h.known⟩
  · rw [hlook] at hrow
    by_cases hseen : seen = pubkey
    · rw [if_pos hseen] at hrow
      cases hrow
      rw [hname]
      rw [hat] at hnone
      cases hold : db.instances[seen]? with
      | none => rfl
      | some old =>
          rw [hold] at hnone
          exact h.unnamed seen old hold hnone
    · rw [if_neg hseen] at hrow
      exact h.unnamed pubkey row hrow hnone
  · rw [hlook] at hrow
    by_cases hseen : seen = pubkey
    · rw [if_pos hseen] at hrow
      cases hrow
      rw [hat] at hsome
      rw [hname]
      cases hold : db.instances[seen]? with
      | none =>
          rw [hold] at hsome
          exact nomatch hsome
      | some old =>
          rw [hold] at hsome
          subst hseen
          exact h.named seen old stamp hold hsome
    · rw [if_neg hseen] at hrow
      exact h.named pubkey row stamp hrow hsome
  · obtain ⟨row, stamp, hrow, hsome, hle⟩ := h.latest e he hnamed
    rw [hlook]
    by_cases hseen : seen = e.pubkey
    · rw [if_pos hseen]
      refine ⟨_, stamp, rfl, ?_, hle⟩
      rw [hat, hseen, hrow]
      exact hsome
    · rw [if_neg hseen]
      exact ⟨row, stamp, hrow, hsome, hle⟩

/-- An event without a name says nothing of the names. -/
theorem insert_unnamed (h : Labels A db) {e : Event} (hlabel : instanceName e = none) :
    Labels (insert e A) db := by
  refine ⟨h.unnamed, fun pubkey row seen hrow hsome => ?_, ?_,
    fun pubkey name seen hrow => ?_, ?_⟩
  · obtain ⟨f, hf, hrest⟩ := h.named pubkey row seen hrow hsome
    exact ⟨f, Set.mem_insert_of_mem e hf, hrest⟩
  · rintro f (rfl | hf) hnamed
    · exact absurd hlabel hnamed
    · exact h.latest f hf hnamed
  · obtain ⟨f, hf, hrest⟩ := h.listed pubkey name seen hrow
    exact ⟨f, Set.mem_insert_of_mem e hf, hrest⟩
  · rintro f (rfl | hf) name hnamed
    · cases hlabel.symm.trans hnamed
    · exact h.known f hf name hnamed

theorem getElem?_recordName (seen label : String) (publishedAt : Int) (db : Db F)
    (pubkey name : String) :
    (Instances.recordName seen label publishedAt db).instanceNames[toLex (pubkey, name)]?
      = if toLex (seen, label) = toLex (pubkey, name) then
          some (raised db.instanceNames[toLex (seen, label)]? publishedAt)
        else db.instanceNames[toLex (pubkey, name)]? := by
  rw [Instances.recordName, getElem?_insert_eq]
  by_cases hkey : toLex (seen, label) = toLex (pubkey, name)
  · rw [if_pos hkey, if_pos hkey]
    cases db.instanceNames[toLex (seen, label)]? with
    | none => rfl
    | some stamp => rfl
  · rw [if_neg hkey, if_neg hkey]

section Named

variable {e : Event} {label : String} (h : Labels A db) (hlabel : instanceName e = some label)

include h

theorem unnamed_upsert (pubkey : String) (row : Instance)
    (hrow : (Instances.upsert e.pubkey (some label) e.at db).instances[pubkey]? = some row)
    (hnone : row.nameSeenAt = none) : row.name = none := by
  rw [getElem?_upsert] at hrow
  by_cases hours : e.pubkey = pubkey
  · rw [if_pos hours] at hrow
    cases hrow
    rcases entry_named db.instances[e.pubkey]? e.pubkey e.at label with
      ⟨seen, -, -, -, hseen⟩ | ⟨-, -, hseen⟩
    · cases hseen.symm.trans hnone
    · cases hseen.symm.trans hnone
  · rw [if_neg hours] at hrow
    exact h.unnamed pubkey row hrow hnone

include hlabel

/-- The row keeps the name it had or takes the one just seen. -/
theorem named_upsert (pubkey : String) (row : Instance) (stamp : Int)
    (hrow : (Instances.upsert e.pubkey (some label) e.at db).instances[pubkey]? = some row)
    (hsome : row.nameSeenAt = some stamp) :
    ∃ f ∈ insert e A, f.pubkey = pubkey ∧ f.at = stamp ∧ instanceName f ≠ none
      ∧ instanceName f = row.name := by
  rw [getElem?_upsert] at hrow
  by_cases hours : e.pubkey = pubkey
  · subst hours
    rw [if_pos rfl] at hrow
    cases hrow
    rcases entry_named db.instances[e.pubkey]? e.pubkey e.at label with
      ⟨seen, hold, -, hname, hseen⟩ | ⟨-, hname, hseen⟩
    · obtain ⟨old, hrow, hat⟩ := Option.bind_eq_some_iff.mp hold
      cases hseen.symm.trans hsome
      obtain ⟨f, hf, hp, hstamp, hnamed, hfname⟩ := h.named e.pubkey old stamp hrow hat
      refine ⟨f, Set.mem_insert_of_mem e hf, hp, hstamp, hnamed, ?_⟩
      rw [hname, hrow]
      exact hfname
    · cases hseen.symm.trans hsome
      refine ⟨e, Set.mem_insert e A, rfl, rfl, ?_, hlabel.trans hname.symm⟩
      rw [hlabel]
      exact Option.some_ne_none label
  · rw [if_neg hours] at hrow
    obtain ⟨f, hf, hrest⟩ := h.named pubkey row stamp hrow hsome
    exact ⟨f, Set.mem_insert_of_mem e hf, hrest⟩

omit h hlabel in
/-- The publisher's row is as new as the event, and as new as it was. -/
theorem latest_of_upsert {stamp : Int}
    (hstamp : stamp = e.at ∨ ∃ row seen, db.instances[e.pubkey]? = some row
      ∧ row.nameSeenAt = some seen ∧ stamp ≤ seen) :
    ∃ row seen, (Instances.upsert e.pubkey (some label) e.at db).instances[e.pubkey]? = some row
      ∧ row.nameSeenAt = some seen ∧ stamp ≤ seen := by
  rw [getElem?_upsert, if_pos rfl]
  rcases entry_named db.instances[e.pubkey]? e.pubkey e.at label with
    ⟨seen, hold, hlt, -, hseen⟩ | ⟨hle, -, hseen⟩
  · refine ⟨_, seen, rfl, hseen, ?_⟩
    rcases hstamp with rfl | ⟨row, before, hrow, hsome, hfle⟩
    · exact hlt.le
    · rw [hrow, Option.bind_some, hsome] at hold
      cases hold
      exact hfle
  · refine ⟨_, e.at, rfl, hseen, ?_⟩
    rcases hstamp with rfl | ⟨row, before, hrow, hsome, hfle⟩
    · exact le_refl _
    · refine hfle.trans (hle before ?_)
      rw [hrow]
      exact hsome

omit hlabel in
theorem latest_upsert (f : Event) (hf : f ∈ insert e A) (hnamed : instanceName f ≠ none) :
    ∃ row seen, (Instances.upsert e.pubkey (some label) e.at db).instances[f.pubkey]? = some row
      ∧ row.nameSeenAt = some seen ∧ f.at ≤ seen := by
  rcases hf with rfl | hf
  · exact latest_of_upsert (.inl rfl)
  · by_cases hp : f.pubkey = e.pubkey
    · rw [hp]
      exact latest_of_upsert (.inr (hp ▸ h.latest f hf hnamed))
    · obtain ⟨row, seen, hold, hrest⟩ := h.latest f hf hnamed
      refine ⟨row, seen, ?_, hrest⟩
      rw [getElem?_upsert, if_neg fun heq => hp heq.symm]
      exact hold

/-- A name on the list is as new as some event that carries it. -/
theorem listed_recordName (pubkey name : String) (stamp : Int)
    (hrow : (Instances.recordName e.pubkey label e.at db).instanceNames[toLex (pubkey, name)]?
      = some stamp) :
    ∃ f ∈ insert e A, f.pubkey = pubkey ∧ instanceName f = some name ∧ f.at = stamp := by
  rw [getElem?_recordName] at hrow
  by_cases hkey : toLex (e.pubkey, label) = toLex (pubkey, name)
  · rw [if_pos hkey, Option.some.injEq] at hrow
    obtain ⟨rfl, rfl⟩ := Prod.mk.inj hkey
    cases hold : db.instanceNames[toLex (e.pubkey, label)]? with
    | none =>
        rw [hold] at hrow
        exact ⟨e, Set.mem_insert e A, rfl, hlabel, hrow⟩
    | some seen =>
        rw [hold] at hrow
        rcases max_choice seen e.at with hmax | hmax
        · obtain ⟨f, hf, hp, hname, hat⟩ := h.listed e.pubkey label seen hold
          exact ⟨f, Set.mem_insert_of_mem e hf, hp, hname, hat.trans (hmax.symm.trans hrow)⟩
        · exact ⟨e, Set.mem_insert e A, rfl, hlabel, hmax.symm.trans hrow⟩
  · rw [if_neg hkey] at hrow
    obtain ⟨f, hf, hrest⟩ := h.listed pubkey name stamp hrow
    exact ⟨f, Set.mem_insert_of_mem e hf, hrest⟩

/-- Every event that carries a name is on the list, or an as new one is. -/
theorem known_recordName (f : Event) (hf : f ∈ insert e A) (name : String)
    (hnamed : instanceName f = some name) :
    ∃ seen, (Instances.recordName e.pubkey label e.at db).instanceNames[toLex (f.pubkey, name)]?
      = some seen ∧ f.at ≤ seen := by
  rw [getElem?_recordName]
  by_cases hkey : toLex (e.pubkey, label) = toLex (f.pubkey, name)
  · rw [if_pos hkey]
    refine ⟨_, rfl, ?_⟩
    rcases hf with rfl | hf
    · cases db.instanceNames[toLex (f.pubkey, label)]? with
      | none => exact le_refl _
      | some seen => exact le_max_right _ _
    · obtain ⟨seen, hold, hle⟩ := h.known f hf name hnamed
      rw [hkey, hold]
      exact hle.trans (le_max_left _ _)
  · rw [if_neg hkey]
    rcases hf with rfl | hf
    · cases hlabel.symm.trans hnamed
      exact absurd rfl hkey
    · exact h.known f hf name hnamed

end Named

/-- **STEP**: an event archived, and its name recorded. -/
theorem sighted (h : Labels A db) (e : Event) :
    Labels (insert e A) (Pipeline.sighted e db) := by
  rw [Pipeline.sighted]
  cases hlabel : instanceName e with
  | none => exact (h.upsert_none e.pubkey e.at).insert_unnamed hlabel
  | some label =>
      exact ⟨h.unnamed_upsert, h.named_upsert hlabel, h.latest_upsert,
        h.listed_recordName hlabel, h.known_recordName hlabel⟩

end Labels

/-! ## The archive, call by call -/

theorem archive_insert {c : Call} (hk : db.events[c.event.id]? = none) :
    archive { db with events := db.events.insertIfNew c.event.id c.record }
      = insert c.event (archive db) := by
  ext e
  constructor
  · rintro ⟨k, r, hr, rfl⟩
    rcases getElem?_insertIfNew_eq_some.mp hr with hold | ⟨-, -, rfl⟩
    · exact .inr ⟨k, r, hold, rfl⟩
    · exact .inl rfl
  · rintro (rfl | ⟨k, r, hr, rfl⟩)
    · exact ⟨_, c.record, archived_lookup c hk, rfl⟩
    · exact ⟨k, r, getElem?_insertIfNew_eq_some.mpr (.inl hr), rfl⟩

/-- The readable part of the archive. -/
def legible (X : Externals F) (db : Db F) : Set Event :=
  {e | e ∈ archive db ∧ ∃ parsed, parse X e = .ok parsed}

theorem mem_voices_archive {pubkey : String} {e : Event} :
    e ∈ voices X (archive db) pubkey ↔ e ∈ legible X db ∧ e.pubkey = pubkey := by
  show (e ∈ archive db ∧ _ ∧ _) ↔ (e ∈ archive db ∧ _) ∧ _
  rw [and_assoc, and_comm (a := e.pubkey = pubkey)]

theorem labels_empty : Labels (legible X (Db.empty : Db F)) (Db.empty : Db F) where
  unnamed := fun _ _ h => nomatch h
  named := fun _ _ _ h => nomatch h
  latest := fun _ he _ => by
    obtain ⟨⟨_, _, h, _⟩, _⟩ := he
    exact nomatch h
  listed := fun _ _ _ h => nomatch h
  known := fun _ he _ _ => by
    obtain ⟨⟨_, _, h, _⟩, _⟩ := he
    exact nomatch h

/-- **STEP**: the names stay those of the archive. -/
theorem labels_ingest {c : Call} (h : Labels (legible X db) db) :
    Labels (legible X (ingest X P c db).2) (ingest X P c db).2 := by
  obtain ⟨outcome, out, heq, hcases⟩ := ingest_cases X P c db
  rw [heq]
  cases hcases with
  | turnedAway _ => exact h
  | duplicate _ _ _ _ => exact h.congr rfl rfl
  | redundant _ _ _ => exact (h.upsert_none c.event.pubkey c.event.at).congr rfl rfl
  | unread _ hp =>
      have hsame : legible X { db with events := db.events.insertIfNew c.event.id c.record }
          = legible X db := by
        cases hk : db.events[c.event.id]? with
        | some old => rw [insertIfNew_of_some hk]
        | none =>
            ext e
            show (_ ∈ archive _ ∧ _) ↔ (_ ∈ archive _ ∧ _)
            rw [archive_insert hk]
            refine and_congr_left fun hread => ⟨?_, Set.mem_insert_of_mem _⟩
            rintro (rfl | hold)
            · obtain ⟨parsed, hok⟩ := hread
              exact nomatch hp.symm.trans hok
            · exact hold
      rw [hsame]
      exact h.congr rfl rfl
  | @stored parsed _ hp _ hk =>
      have hsame : legible X (advance c (persist X c.event parsed
          { db with events := db.events.insertIfNew c.event.id c.record }))
            = insert c.event (legible X db) := by
        have harchive : archive (advance c (persist X c.event parsed
            { db with events := db.events.insertIfNew c.event.id c.record }))
              = insert c.event (archive db) := by
          rw [← archive_insert hk, archive, archive, advance_events, (persisted hp _).events]
        ext e
        show (_ ∈ archive _ ∧ _) ↔ _
        rw [harchive]
        constructor
        · rintro ⟨rfl | hold, hread⟩
          · exact .inl rfl
          · exact .inr ⟨hold, hread⟩
        · rintro (rfl | ⟨hold, hread⟩)
          · exact ⟨.inl rfl, parsed, hp⟩
          · exact ⟨.inr hold, hread⟩
      rw [hsame]
      have hlabels : Labels (legible X db)
          { db with events := db.events.insertIfNew c.event.id c.record } := h.congr rfl rfl
      obtain ⟨hi, hn⟩ := Rebuild.persist_bestiary (X := X) c.event parsed
        { db with events := db.events.insertIfNew c.event.id c.record }
      exact (hlabels.sighted c.event).congr hi hn

end Bestiary
