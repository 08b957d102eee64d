import Bestiario.Naming
import Bestiario.Backfill

/-! # What a run says it stored

    `Counts` of `ingest/mod.rs` against the archive.  A run prints how many events
    it stored, and an operator reads the number as what is now on disk; an event
    that could not be read is archived too, and counted as rejected.

    Everything a run does to the database is told by its TOUCHES: the events it
    handed over and the connection sets it read. -/

namespace Dialling

open Keyed Wire Parse Repo Pipeline
open History (Counts Backfill Walked Answer nextBound)
open Sync (Range)

variable {F : Type} {X : Externals F} {P : Policy}

/-! ## Counting -/

/-- What became of the events of a run. -/
def tally (X : Externals F) (P : Policy) : List Touch → Db F → Counts
  | [], _ => {}
  | .connect S now :: rest, db => tally X P rest (Touch.apply X P (.connect S now) db)
  | .ingest c :: rest, db =>
      (Counts.record {} (Pipeline.ingest X P c db).1).add
        (tally X P rest (Touch.apply X P (.ingest c) db))

/-- How many events a run handed over. -/
def handedOver : List Touch → Nat
  | [] => 0
  | .connect _ _ :: rest => handedOver rest
  | .ingest _ :: rest => handedOver rest + 1

/-- `Counts::total`. -/
def total (counts : Counts) : Nat :=
  counts.stored + counts.duplicate + counts.redundant + counts.rejected

theorem empty_add (counts : Counts) : Counts.add {} counts = counts := by
  rw [Counts.add]
  simp

theorem add_assoc (a b c : Counts) : (a.add b).add c = a.add (b.add c) := by
  simp only [Counts.add, Nat.add_assoc]

theorem record_eq (counts : Counts) (outcome : IngestOutcome F) :
    counts.record outcome = counts.add (Counts.record {} outcome) := by
  cases outcome with
  | stored => rfl
  | duplicate => rfl
  | redundant => rfl
  | rejected rejection => rfl

theorem touched_append (touches later : List Touch) (db : Db F) :
    touched X P (touches ++ later) db = touched X P later (touched X P touches db) :=
  List.foldl_append

theorem tally_append (touches later : List Touch) (db : Db F) :
    tally X P (touches ++ later) db
      = (tally X P touches db).add (tally X P later (touched X P touches db)) := by
  induction touches generalizing db with
  | nil => exact (empty_add _).symm
  | cons touch rest ih =>
      cases touch with
      | connect S now => exact ih _
      | ingest c =>
          rw [List.cons_append, tally, tally, ih, ← add_assoc]
          rfl

theorem total_add (a b : Counts) : total (a.add b) = total a + total b := by
  simp only [total, Counts.add]
  omega

theorem total_record (outcome : IngestOutcome F) : total (Counts.record {} outcome) = 1 := by
  cases outcome with
  | stored => rfl
  | duplicate => rfl
  | redundant => rfl
  | rejected rejection => rfl

/-- Every event handed over is counted once. -/
theorem total_tally (touches : List Touch) (db : Db F) :
    total (tally X P touches db) = handedOver touches := by
  induction touches generalizing db with
  | nil => rfl
  | cons touch rest ih =>
      cases touch with
      | connect S now => exact ih _
      | ingest c =>
          rw [tally, total_add, total_record, ih, handedOver]
          omega

/-! ## The archive -/

/-- The archived events that can be read, of those `q` is about. -/
def readable (X : Externals F) (q : Event → Bool) (db : Db F) : Table String EventRecord :=
  db.events.filter fun _ record => q record.rawJson && (parse X record.rawJson).isOk

theorem readable_insertIfNew {p : EventRecord → Bool} {events : Table String EventRecord}
    {record : EventRecord} (hnew : events[record.id]? = none) (hp : p record = true) :
    (events.insertIfNew record.id record).filter (fun _ r => p r)
      = (events.filter fun _ r => p r).insertIfNew record.id record := by
  refine Keyed.ext fun k => ?_
  rw [Std.ExtTreeMap.getElem?_filter, getElem?_insertIfNew_eq, getElem?_insertIfNew_eq,
    Std.ExtTreeMap.getElem?_filter]
  by_cases hk : record.id = k
  · subst hk
    rw [if_pos rfl, if_pos rfl, hnew]
    simp [hp]
  · rw [if_neg hk, if_neg hk]

theorem readable_insertIfNew_of_not {p : EventRecord → Bool}
    {events : Table String EventRecord} {record : EventRecord} (hp : p record = false) :
    (events.insertIfNew record.id record).filter (fun _ r => p r)
      = events.filter fun _ r => p r := by
  refine Keyed.ext fun k => ?_
  rw [Std.ExtTreeMap.getElem?_filter, getElem?_insertIfNew_eq, Std.ExtTreeMap.getElem?_filter]
  by_cases hk : record.id = k
  · subst hk
    rw [if_pos rfl]
    cases events[record.id]? with
    | none => simp [hp]
    | some old => rfl
  · rw [if_neg hk]

/-- Whether a call stored an event that `q` is about. -/
def stores (q : Event → Bool) (e : Event) : IngestOutcome F → Nat
  | .stored => if q e then 1 else 0
  | _ => 0

/-- **STEP**: a stored event is one more readable event in the archive, and no other
    outcome is. -/
theorem readable_ingest (q : Event → Bool) (c : Call) (db : Db F) :
    (readable X q (Pipeline.ingest X P c db).2).size
      = (readable X q db).size + stores q c.event (Pipeline.ingest X P c db).1 := by
  obtain ⟨outcome, db', heq, hcases⟩ := ingest_cases X P c db
  rw [heq]
  cases hcases with
  | turnedAway _ => rfl
  | unread _ hp =>
      have hread : (q c.record.rawJson && (parse X c.record.rawJson).isOk) = false := by
        show (q c.event && (parse X c.event).isOk) = false
        rw [hp]
        exact Bool.and_false _
      show ((db.events.insertIfNew c.record.id c.record).filter _).size = _
      rw [readable_insertIfNew_of_not hread]
      rfl
  | redundant _ _ _ => rfl
  | duplicate _ _ _ _ => rfl
  | @stored parsed _ hp _ hk =>
      have hnew : db.events[c.record.id]? = none := hk
      have hout : ∀ p : EventRecord → Bool, c.record.id ∉ db.events.filter fun _ r => p r := by
        intro p
        rw [← Std.ExtTreeMap.isSome_getElem?_iff_mem, Std.ExtTreeMap.getElem?_filter, hnew]
        simp
      have hevents := (Derived.persisted hp { db with
        events := db.events.insertIfNew c.event.id c.record }).events
      show ((persist X c.event parsed _).events.filter _).size = _
      rw [hevents]
      show ((db.events.insertIfNew c.record.id c.record).filter _).size
        = _ + if q c.event then 1 else 0
      by_cases hq : q c.event = true
      · have hread : (q c.record.rawJson && (parse X c.record.rawJson).isOk) = true := by
          show (q c.event && (parse X c.event).isOk) = true
          rw [hp, hq]
          rfl
        rw [readable_insertIfNew hnew hread, Std.ExtTreeMap.size_insertIfNew, if_neg (hout _),
          if_pos hq]
        rfl
      · have hread : (q c.record.rawJson && (parse X c.record.rawJson).isOk) = false := by
          show (q c.event && (parse X c.event).isOk) = false
          rw [Bool.not_eq_true _ |>.mp hq]
          rfl
        rw [readable_insertIfNew_of_not hread, if_neg hq]
        rfl

/-- Reading the connection set archives nothing. -/
theorem readable_connect (q : Event → Bool) (S : NostrSettings) (now : Int) (db : Db F) :
    readable X q (Touch.apply X P (.connect S now) db) = readable X q db := by
  show readable X q (connectionSet S now db).2 = _
  rw [connectionSet_db]
  rfl

/-- Every event. -/
def everyEvent (_ : Event) : Bool := true

theorem stores_everyEvent (e : Event) (outcome : IngestOutcome F) :
    stores everyEvent e outcome = (Counts.record {} outcome).stored := by
  cases outcome with
  | stored => rfl
  | duplicate => rfl
  | redundant => rfl
  | rejected rejection => rfl

/-- **RUN**: what a run counts as stored is by how much the readable archive grew. -/
theorem readable_touched (touches : List Touch) (db : Db F) :
    (readable X everyEvent (touched X P touches db)).size
      = (readable X everyEvent db).size + (tally X P touches db).stored := by
  induction touches generalizing db with
  | nil => rfl
  | cons touch rest ih =>
      show (readable X everyEvent (touched X P rest (touch.apply X P db))).size = _
      rw [ih]
      cases touch with
      | connect S now =>
          rw [readable_connect]
          rfl
      | ingest c =>
          show (readable X everyEvent (Pipeline.ingest X P c db).2).size + _
            = _ + ((Counts.record {} (Pipeline.ingest X P c db).1).stored + _)
          rw [readable_ingest, stores_everyEvent]
          exact Nat.add_assoc _ _ _

/-! ## A walk, told by its touches -/

/-- The events of a walk as they are handed over. -/
def deliveries (relayUrl : String) (now : Int) (events : List Event) : List Touch :=
  events.map fun e => .ingest ⟨e, relayUrl, now⟩

theorem deliveries_append (relayUrl : String) (now : Int) (events later : List Event) :
    deliveries relayUrl now (events ++ later)
      = deliveries relayUrl now events ++ deliveries relayUrl now later :=
  List.map_append

theorem ingestWindow_eq (B : Backfill) (now : Int) (page : List Event) (db : Db F) :
    B.ingestWindow X P now page db
      = (tally X P (deliveries B.relayUrl now page.reverse) db,
        touched X P (deliveries B.relayUrl now page.reverse) db) := by
  have hfold : ∀ (events : List Event) (counts : Counts) (db : Db F),
      events.foldl (fun (state : Counts × Db F) e =>
          (state.1.record (Pipeline.ingest X P ⟨e, B.relayUrl, now⟩ state.2).1,
            (Pipeline.ingest X P ⟨e, B.relayUrl, now⟩ state.2).2)) (counts, db)
        = (counts.add (tally X P (deliveries B.relayUrl now events) db),
          touched X P (deliveries B.relayUrl now events) db) := by
    intro events
    induction events with
    | nil =>
        intro counts db
        rfl
    | cons e rest ih =>
        intro counts db
        rw [List.foldl_cons, ih, record_eq, add_assoc]
        rfl
  refine (hfold page.reverse {} db).trans ?_
  rw [empty_add]

section Walk

variable {B : Backfill} {kind : UInt16} {range : Range} {now : Int} {vouched : List String}
  {answer : Answer}

/-- **A WALK IS ITS DELIVERIES**: the database, and what is counted, follow from the
    events handed over. -/
theorem loop_deliveries {fuel : Nat} : ∀ {n : Nat} {until' : Int} {w w' : Walked F},
    B.loop X P kind range now vouched answer fuel n until' w = some w' →
      ∃ events, w'.handed = w.handed ++ events
        ∧ w'.db = touched X P (deliveries B.relayUrl now events) w.db
        ∧ w'.counts = w.counts.add (tally X P (deliveries B.relayUrl now events) w.db) := by
  induction fuel with
  | zero =>
      intro n until' w w' h
      cases h
  | succ fuel ih =>
      intro n until' w w' h
      rw [History.loop_succ] at h
      cases hasked : B.asked kind range now vouched answer n until' with
      | none =>
          rw [hasked] at h
          cases h
          exact ⟨[], (List.append_nil _).symm, rfl, rfl⟩
      | some page =>
          rw [hasked] at h
          obtain ⟨events, hhanded, hdb, hcounts⟩ := ih h
          rw [Backfill.took, ingestWindow_eq] at hhanded hdb hcounts
          refine ⟨page.reverse ++ events, ?_, ?_, ?_⟩
          · rw [hhanded, List.append_assoc]
          · rw [hdb, deliveries_append, touched_append]
          · rw [hcounts, add_assoc, deliveries_append, tally_append]

theorem walk_deliveries {fuel : Nat} {db : Db F} {w : Walked F}
    (h : B.walk X P kind range now answer db fuel = some w) :
    w.db = touched X P (deliveries B.relayUrl now w.handed) db
      ∧ w.counts = tally X P (deliveries B.relayUrl now w.handed) db := by
  obtain ⟨events, hhanded, hdb, hcounts⟩ := loop_deliveries h
  rw [List.nil_append] at hhanded
  rw [hhanded, hdb, hcounts, empty_add]
  exact ⟨rfl, rfl⟩

end Walk

end Dialling
