import Bestiario.Lib.Table
import Bestiario.Snapshot

/-! # Restatements

    `crates/stats/src/publish/restatement.rs`, `index.rs` and the
    `published_documents` table of `src/db/repo/published.rs`: each document of
    a run against what was last published under its address.

    A document is new, unchanged or changed (`against`).  What it leaves behind
    goes through three shapes before the next run reads it — the envelope,
    whose clock is text; the record; the row — and comes back as it was
    (`recorded_against`, `previous_row`). -/

namespace Publish

open Keyed
open Stats (rfc3339)

variable {F : Type}

/-! ## What was published -/

/-- What the last publication concluded about one address. -/
inductive Previous where
  | first (hash : String) (updatedAt : Int)
  | restated (hash : String) (revision : Nat) (updatedAt : Int) (restatement : Restatement)
      (above : 1 < revision)
  deriving DecidableEq

namespace Previous

/-- `Previous::restated`: `none` at the first revision. -/
def restated? (hash : String) (revision : Nat) (updatedAt : Int) (restatement : Restatement) :
    Option Previous :=
  if above : 1 < revision then some (.restated hash revision updatedAt restatement above)
  else none

def hash : Previous → String
  | .first hash _ => hash
  | .restated hash _ _ _ _ => hash

def revision : Previous → Nat
  | .first _ _ => 1
  | .restated _ revision _ _ _ => revision

def updatedAt : Previous → Int
  | .first _ updatedAt => updatedAt
  | .restated _ _ updatedAt _ _ => updatedAt

def restatement : Previous → Option Restatement
  | .first _ _ => none
  | .restated _ _ _ restatement _ => some restatement

end Previous

/-- Why the figures moved. -/
inductive Because where
  | backfill
  | rebuild
  | schema
  | correction
  deriving DecidableEq, Repr

def Because.asStr : Because → String
  | .backfill => "backfill"
  | .rebuild => "rebuild"
  | .schema => "schema"
  | .correction => "correction"

/-- What a run sends beyond what changed. -/
inductive Republish where
  | no
  | all
  | range (range : Stats.Window)

/-- `Republish::sends_unchanged`: a range names series partitions only. -/
def Republish.sendsUnchanged (republish : Republish) (document : Document F) : Bool :=
  match republish with
  | .no => false
  | .all => true
  | .range asked =>
      match document.address, document.period with
      | .series _ _ _, some period =>
          decide (period.from' < asked.until') && decide (asked.from' < period.until')
      | _, _ => false

/-! ## One document against its history -/

/-- `envelope`: at `revision`, restated or not. -/
def envelope (run : Run) (revision : Nat) (restatement : Option Restatement)
    (payload : Payload F) : Envelope F :=
  (restatement.bind fun restatement => Envelope.restated run revision restatement payload).getD
    (.first run payload)

/-- `u32::saturating_add(1)`. -/
def nextRevision (revision : Nat) : Nat := min (revision + 1) (2 ^ 32 - 1)

/-- `Snapshot::against`, and whether the payload is the one already published. -/
def against (run : Run) (document : Document F) (previous : Option Previous)
    (because : Because) : Document F × Bool :=
  let payload := document.envelope.payload
  match previous with
  | none =>
      ({ document with envelope := .first run payload, updatedAt := run.generatedAt }, false)
  | some previous =>
      if previous.hash = document.hash then
        ({ document with
            envelope := envelope run previous.revision previous.restatement payload
            updatedAt := previous.updatedAt }, true)
      else
        ({ document with
            envelope := envelope run (nextRevision previous.revision)
              (some ⟨run.generatedAt, because.asStr⟩) payload
            updatedAt := run.generatedAt }, false)

/-- `recorded`: what a document leaves behind. -/
def recorded (document : Document F) : Previous :=
  (document.envelope.restatement.bind fun restatement =>
    Previous.restated? document.hash document.envelope.revision document.updatedAt
      restatement).getD (.first document.hash document.updatedAt)

/-- A snapshot placed against what was last published. -/
structure Restated (F : Type) where
  snapshot : Snapshot F
  notSent : Finset String
  state : Table String Previous

/-- One document of the loop of `Snapshot::restated`. -/
def Restated.push (previous : Table String Previous) (because : Because)
    (republish : Republish) (so : Restated F) (document : Document F) : Restated F :=
  let address := document.address.toString
  let (restated, isUnchanged) := against so.snapshot.run document previous[address]? because
  { snapshot := { so.snapshot with documents := so.snapshot.documents ++ [restated] }
    notSent := if isUnchanged && !republish.sendsUnchanged restated then
        insert address so.notSent
      else so.notSent
    state := so.state.insert address (recorded restated) }

/-- `Snapshot::restated`. -/
def Snapshot.restated (snapshot : Snapshot F) (previous : Table String Previous)
    (because : Because) (republish : Republish) : Restated F :=
  snapshot.documents.foldl (Restated.push previous because republish)
    ⟨{ snapshot with documents := [] }, ∅, ∅⟩

/-- The documents a run sends. -/
def Restated.sent (restated : Restated F) : List (Document F) :=
  restated.snapshot.documents.filter fun document =>
    decide (document.address.toString ∉ restated.notSent)

/-! ## The table -/

/-- A row of `published_documents`. -/
structure PublishedRow where
  hash : String
  revision : Int
  updatedAt : Int
  restatedAt : Option Int
  restatedBecause : Option String
  deriving DecidableEq

/-- The row a record is written as. -/
def Previous.row (previous : Previous) : PublishedRow where
  hash := previous.hash
  revision := previous.revision
  updatedAt := previous.updatedAt
  restatedAt := previous.restatement.map Restatement.at'
  restatedBecause := previous.restatement.map Restatement.because

/-- The record a row is read as; a restatement of the first revision, or of no
    date or no reason, is a first publication. -/
def PublishedRow.previous (row : PublishedRow) : Previous :=
  ((row.restatedAt.bind fun at' => row.restatedBecause.map fun because =>
      (⟨at', because⟩ : Restatement)).bind fun restatement =>
    -- `revision.max(0) as u32`.
    Previous.restated? row.hash ((max row.revision 0).toNat % 2 ^ 32) row.updatedAt
      restatement).getD (.first row.hash row.updatedAt)

/-- `published_documents`, keyed by `d`. -/
abbrev Published := Table String PublishedRow

/-- `published::all`. -/
def Published.all (published : Published) : Table String Previous :=
  published.map fun _ row => row.previous

/-- `published::record`, for every record of a run: an upsert each. -/
def Published.record (published : Published) (state : Table String Previous) : Published :=
  published ∪ state.map fun _ previous => previous.row

/-! ## The index -/

/-- Who published a snapshot. -/
structure Publisher where
  name : String
  version : String
  deriving DecidableEq

/-- The archive's extent. -/
structure Extent where
  firstEventAt : Option String
  lastEventAt : Option String
  deriving DecidableEq

/-- The keys of the partitions at one resolution, least and greatest. -/
structure Available where
  from' : String
  until' : String
  deriving DecidableEq

/-- One document, as the index lists it. -/
structure Entry where
  d : String
  hash : String
  revision : Nat
  updatedAt : String
  restatedAt : Option String
  restatedBecause : Option String
  deriving DecidableEq

/-- `entry`. -/
def entry (document : Document F) : Entry where
  d := document.address.toString
  hash := document.hash
  revision := document.envelope.revision
  updatedAt := rfc3339 document.updatedAt
  restatedAt := document.envelope.restatedAt
  restatedBecause := document.envelope.restatedBecause

/-- One document of the loop of `resolutions`. -/
def widen (spans : Table String Available) (document : Document F) : Table String Available :=
  match document.address with
  | .series _ partition _ =>
      let key := partition.bucket.toString
      let resolution := partition.resolution.asStr
      spans.insert resolution <| match spans[resolution]? with
        | some span => ⟨min span.from' key, max span.until' key⟩
        | none => ⟨key, key⟩
  | _ => spans

/-- `resolutions`. -/
def resolutions (documents : List (Document F)) : Table String Available :=
  documents.foldl widen ∅

/-- The index document. -/
structure Index where
  schemaVersion : Nat
  snapshotId : String
  generatedAt : String
  publisher : Publisher
  coverage : Extent
  resolutions : Table String Available
  documents : List Entry

/-- `Snapshot::index`. -/
def Snapshot.index (snapshot : Snapshot F) (publisher : Publisher) : Index where
  schemaVersion := Publish.schemaVersion
  snapshotId := snapshot.run.snapshotId
  generatedAt := rfc3339 snapshot.run.generatedAt
  publisher := publisher
  coverage := ⟨snapshot.coverage.earliest.map rfc3339, snapshot.coverage.latest.map rfc3339⟩
  resolutions := Publish.resolutions snapshot.documents
  documents := snapshot.documents.map entry

/-! ## What `against` keeps and what it decides -/

theorem Envelope.payload_of_restated {run : Run} {revision : Nat} {restatement : Restatement}
    {payload : Payload F} {made : Envelope F}
    (h : Envelope.restated run revision restatement payload = some made) :
    made.payload = payload := by
  rw [Envelope.restated] at h
  split at h
  · cases h
    rfl
  · cases h

@[simp]
theorem envelope_payload (run : Run) (revision : Nat) (restatement : Option Restatement)
    (payload : Payload F) : (envelope run revision restatement payload).payload = payload := by
  rw [envelope]
  cases hmade : restatement.bind fun r => Envelope.restated run revision r payload with
  | none => rfl
  | some made =>
      obtain ⟨r, -, hr⟩ := Option.bind_eq_some_iff.mp hmade
      exact Envelope.payload_of_restated hr

section Against

variable {run : Run} {document : Document F} {previous : Option Previous} {because : Because}

/-- **A DOCUMENT KEEPS ITS ADDRESS, ITS HASH, ITS SPAN AND ITS FIGURES.** -/
theorem against_kept :
    (against run document previous because).1.address = document.address
      ∧ (against run document previous because).1.hash = document.hash
      ∧ (against run document previous because).1.period = document.period
      ∧ (against run document previous because).1.envelope.payload
          = document.envelope.payload := by
  cases previous with
  | none => exact ⟨rfl, rfl, rfl, rfl⟩
  | some p =>
      by_cases h : p.hash = document.hash
      · simp [against, h]
      · simp [against, h]

@[simp]
theorem against_address :
    (against run document previous because).1.address = document.address := against_kept.1

@[simp]
theorem against_hash : (against run document previous because).1.hash = document.hash :=
  against_kept.2.1

@[simp]
theorem against_payload :
    (against run document previous because).1.envelope.payload = document.envelope.payload :=
  against_kept.2.2.2

/-- A document is unchanged when its hash is the recorded one. -/
theorem against_unchanged :
    (against run document previous because).2 = true
      ↔ previous.map Previous.hash = some document.hash := by
  cases previous with
  | none => simp [against]
  | some p =>
      by_cases h : p.hash = document.hash
      · simp [against, h]
      · simp [against, h]

end Against

/-! ## The loop -/

section Loop

variable {snapshot : Snapshot F} {previous : Table String Previous} {because : Because}
  {republish : Republish}

/-- A document of the snapshot, placed against its own history. -/
def Snapshot.placed (snapshot : Snapshot F) (previous : Table String Previous)
    (because : Because) (document : Document F) : Document F × Bool :=
  against snapshot.run document previous[document.address.toString]? because

/-- Whether the run leaves a document out: unchanged, and not asked for. -/
def Snapshot.withheld (snapshot : Snapshot F) (previous : Table String Previous)
    (because : Because) (republish : Republish) (document : Document F) : Bool :=
  (snapshot.placed previous because document).2
    && !republish.sendsUnchanged (snapshot.placed previous because document).1

/-- **THE LOOP, WHOLE**: each document in its place, a record for each, and the
    unchanged ones nobody asked for left out. -/
theorem restated_eq :
    snapshot.restated previous because republish
      = { snapshot :=
            { snapshot with
              documents := snapshot.documents.map fun document =>
                (snapshot.placed previous because document).1 }
          notSent := ((snapshot.documents.filter
            (snapshot.withheld previous because republish)).map
              fun document => document.address.toString).toFinset
          state := collect (fun document => document.address.toString)
            (fun document => recorded (snapshot.placed previous because document).1)
            snapshot.documents } := by
  obtain ⟨run, coverage, documents⟩ := snapshot
  -- The run and the coverage stand still, so the rules may be named beforehand.
  let rules : Snapshot F := ⟨run, coverage, []⟩
  have hloop : documents.foldl (Restated.push previous because republish) ⟨rules, ∅, ∅⟩
      = { snapshot := { rules with
            documents := documents.map fun d => (rules.placed previous because d).1 }
          notSent := ((documents.filter (rules.withheld previous because republish)).map
            fun d => d.address.toString).toFinset
          state := collect (fun d => d.address.toString)
            (fun d => recorded (rules.placed previous because d).1) documents } := by
    induction documents using List.reverseRecOn with
    | nil => rfl
    | append_singleton documents document ih =>
        rw [List.foldl_append, ih, List.foldl_cons, List.foldl_nil, Restated.push,
          collect_concat, List.map_append, List.filter_append]
        have hnot : (if rules.withheld previous because republish document = true then
              insert document.address.toString
                ((documents.filter (rules.withheld previous because republish)).map
                  fun d => d.address.toString).toFinset
            else ((documents.filter (rules.withheld previous because republish)).map
              fun d => d.address.toString).toFinset)
            = ((documents.filter (rules.withheld previous because republish)
                ++ [document].filter (rules.withheld previous because republish)).map
                  fun d => d.address.toString).toFinset := by
          by_cases h : rules.withheld previous because republish document = true
          · rw [if_pos h, List.filter_cons_of_pos h]
            ext address
            simp
          · rw [if_neg h, List.filter_cons_of_neg h, List.filter_nil, List.append_nil]
        rw [← hnot]
        rfl
  exact hloop

theorem restated_documents :
    (snapshot.restated previous because republish).snapshot.documents
      = snapshot.documents.map fun document =>
          (snapshot.placed previous because document).1 := by
  rw [restated_eq]

theorem mem_notSent {address : String} :
    address ∈ (snapshot.restated previous because republish).notSent
      ↔ ∃ document ∈ snapshot.documents, document.address.toString = address
          ∧ previous[document.address.toString]?.map Previous.hash = some document.hash
          ∧ republish.sendsUnchanged (snapshot.placed previous because document).1 = false := by
  rw [restated_eq]
  simp only [List.mem_toFinset, List.mem_map, List.mem_filter, Snapshot.withheld,
    Bool.and_eq_true, Bool.not_eq_true', Snapshot.placed, against_unchanged]
  constructor
  · rintro ⟨document, ⟨hmem, hsame, hsend⟩, rfl⟩
    exact ⟨document, hmem, rfl, hsame, hsend⟩
  · rintro ⟨document, hmem, rfl, hsame, hsend⟩
    exact ⟨document, ⟨hmem, hsame, hsend⟩, rfl⟩

theorem restated_state :
    (snapshot.restated previous because republish).state
      = collect (fun document => document.address.toString)
          (fun document => recorded (snapshot.placed previous because document).1)
          snapshot.documents := by
  rw [restated_eq]

/-- An address a run computed is recorded as one of its documents there. -/
theorem exists_restated_state (previous : Table String Previous) (because : Because)
    (republish : Republish) {address : String}
    (h : ∃ document ∈ snapshot.documents, document.address.toString = address) :
    ∃ document ∈ snapshot.documents, document.address.toString = address
      ∧ (snapshot.restated previous because republish).state[address]?
        = some (recorded (snapshot.placed previous because document).1) := by
  rw [restated_state]
  exact exists_getElem?_collect h

/-- **WHAT A RUN SENDS BEYOND WHAT CHANGED TOUCHES NO REVISION.** -/
theorem restated_republish (snapshot : Snapshot F) (previous : Table String Previous)
    (because : Because) (republish republish' : Republish) :
    (snapshot.restated previous because republish).snapshot
        = (snapshot.restated previous because republish').snapshot
      ∧ (snapshot.restated previous because republish).state
        = (snapshot.restated previous because republish').state := by
  constructor
  · rw [restated_eq, restated_eq]
  · rw [restated_state, restated_state]

end Loop

/-! ## Three shapes of one record -/

theorem parse_rfc3339 {t : Int} (h : Timestamp.FourDigit t) :
    Envelope.parseRfc3339 (rfc3339 t) = some t := by
  have hdate : Stats.Representable t := by
    obtain ⟨h0, h9⟩ := h
    constructor
    · omega
    · omega
  have hfrom : Stats.fromTimestamp t = some (Calendar.DateTime.ofUnix t) := if_pos hdate
  have htext : rfc3339 t = String.ofList (Timestamp.text t) := by
    unfold Stats.rfc3339
    split
    · rfl
    · rename_i hnone
      rw [hfrom] at hnone
      cases hnone
  show Timestamp.parse (rfc3339 t).toList = some t
  rw [htext, String.toList_ofList, Timestamp.parse_text h]

/-- A record whose restatement has a clock that can be written. -/
def Previous.Dated (previous : Previous) : Prop :=
  ∀ restatement, previous.restatement = some restatement
    → Timestamp.FourDigit restatement.at'

/-- What an address is recorded as after one more computation of it. -/
def Previous.next (clock : Int) (hash : String) (because : Because) :
    Option Previous → Previous
  | none => .first hash clock
  | some previous =>
      if previous.hash = hash then previous
      else (Previous.restated? hash (nextRevision previous.revision) clock
        ⟨clock, because.asStr⟩).getD (.first hash clock)

/-- A document as a record has it published. -/
def Previous.publish (previous : Previous) (run : Run) (document : Document F) : Document F :=
  { document with
    envelope := envelope run previous.revision previous.restatement document.envelope.payload
    updatedAt := previous.updatedAt }

/-- The entry a record has in the index. -/
def Previous.entry (previous : Previous) (d : String) : Entry where
  d := d
  hash := previous.hash
  revision := previous.revision
  updatedAt := rfc3339 previous.updatedAt
  restatedAt := previous.restatement.map fun restatement => rfc3339 restatement.at'
  restatedBecause := previous.restatement.map Restatement.because

namespace Previous

variable {clock : Int} {hash : String} {because : Because}

theorem one_le_revision (previous : Previous) : 1 ≤ previous.revision := by
  cases previous with
  | first _ _ => exact le_refl 1
  | restated _ _ _ _ above => exact le_of_lt above

theorem one_lt_nextRevision (previous : Previous) : 1 < nextRevision previous.revision := by
  have := previous.one_le_revision
  rw [nextRevision]
  omega

theorem next_of_eq {previous : Previous} (h : previous.hash = hash) :
    next clock hash because (some previous) = previous := if_pos h

theorem next_of_ne {previous : Previous} (h : previous.hash ≠ hash) :
    next clock hash because (some previous)
      = .restated hash (nextRevision previous.revision) clock ⟨clock, because.asStr⟩
          previous.one_lt_nextRevision := by
  rw [next, if_neg h, restated?, dif_pos previous.one_lt_nextRevision, Option.getD_some]

@[simp]
theorem next_hash (previous : Option Previous) :
    (next clock hash because previous).hash = hash := by
  cases previous with
  | none => rfl
  | some previous =>
      by_cases h : previous.hash = hash
      · rw [next_of_eq h, h]
      · rw [next_of_ne h]
        rfl

theorem next_dated {previous : Option Previous} (hclock : Timestamp.FourDigit clock)
    (h : ∀ p, previous = some p → p.Dated) : (next clock hash because previous).Dated := by
  cases previous with
  | none =>
      intro restatement hnone
      cases hnone
  | some previous =>
      by_cases hsame : previous.hash = hash
      · rw [next_of_eq hsame]
        exact h previous rfl
      · rw [next_of_ne hsame]
        intro restatement hsome
        cases hsome
        exact hclock

end Previous

/-- **A DOCUMENT IS PUBLISHED AS THE NEXT RECORD OF ITS HISTORY.** -/
theorem against_eq (run : Run) (document : Document F) (previous : Option Previous)
    (because : Because) :
    (against run document previous because).1
      = (Previous.next run.generatedAt document.hash because previous).publish run document := by
  cases previous with
  | none => rfl
  | some previous =>
      by_cases h : previous.hash = document.hash
      · rw [Previous.next_of_eq h, against, if_pos h]
        rfl
      · rw [Previous.next_of_ne h, against, if_neg h]
        rfl

/-- An envelope made at a record's revision says what the record says. -/
theorem envelope_eq (run : Run) (previous : Previous) (payload : Payload F) :
    (envelope run previous.revision previous.restatement payload).revision = previous.revision
      ∧ (envelope run previous.revision previous.restatement payload).restatedAt
          = previous.restatement.map (fun restatement => rfc3339 restatement.at')
      ∧ (envelope run previous.revision previous.restatement payload).restatedBecause
          = previous.restatement.map Restatement.because := by
  cases previous with
  | first hash updatedAt => exact ⟨rfl, rfl, rfl⟩
  | restated hash revision updatedAt restatement above =>
      simp [envelope, Previous.revision, Previous.restatement, Envelope.restated, above]

/-- **THE ENTRY OF A DOCUMENT IS THE ENTRY OF ITS RECORD.** -/
theorem entry_publish {previous : Previous} {run : Run} {document : Document F}
    (h : previous.hash = document.hash) :
    entry (previous.publish run document) = previous.entry document.address.toString := by
  obtain ⟨hrevision, hat, hbecause⟩ := envelope_eq run previous document.envelope.payload
  simp only [entry, Previous.entry, Previous.publish, hrevision, hat, hbecause, h]

/-- **A RECORD COMES BACK FROM THE ENVELOPE**, through the text of its clock. -/
theorem recorded_publish {previous : Previous} {run : Run} {document : Document F}
    (h : previous.hash = document.hash) (hdated : previous.Dated) :
    recorded (previous.publish run document) = previous := by
  obtain ⟨hrevision, hat, hbecause⟩ := envelope_eq run previous document.envelope.payload
  have hrestatement : (previous.publish run document).envelope.restatement
      = previous.restatement := by
    rw [Envelope.restatement, Previous.publish, hat, hbecause]
    cases hcase : previous.restatement with
    | none => rfl
    | some restatement => simp [parse_rfc3339 (hdated restatement hcase)]
  rw [recorded, hrestatement]
  simp only [Previous.publish, hrevision, ← h]
  cases previous with
  | first hash updatedAt => rfl
  | restated hash revision updatedAt restatement above =>
      simp [Previous.restatement, Previous.restated?, Previous.revision, Previous.hash,
        Previous.updatedAt, above]

/-- A record has the hash of its document. -/
@[simp]
theorem recorded_hash (document : Document F) : (recorded document).hash = document.hash := by
  rw [recorded]
  cases hmade : document.envelope.restatement.bind fun restatement =>
      Previous.restated? document.hash document.envelope.revision document.updatedAt
        restatement with
  | none => rfl
  | some previous =>
      obtain ⟨restatement, -, hprevious⟩ := Option.bind_eq_some_iff.mp hmade
      rw [Previous.restated?] at hprevious
      split at hprevious
      · cases hprevious
        rfl
      · cases hprevious

/-- **THE RECORD OF A DOCUMENT IS THE NEXT OF ITS HISTORY.** -/
theorem recorded_against {run : Run} {document : Document F} {previous : Option Previous}
    {because : Because} (hclock : Timestamp.FourDigit run.generatedAt)
    (h : ∀ p, previous = some p → p.Dated) :
    recorded (against run document previous because).1
      = Previous.next run.generatedAt document.hash because previous := by
  rw [against_eq]
  exact recorded_publish (Previous.next_hash previous) (Previous.next_dated hclock h)

/-- **A RECORD READS BACK FROM ITS ROW.** -/
theorem previous_row {previous : Previous} (h : previous.revision < 2 ^ 32) :
    previous.row.previous = previous := by
  cases previous with
  | first hash updatedAt => rfl
  | restated hash revision updatedAt restatement above =>
      have hrevision : (max (revision : Int) 0).toNat % 2 ^ 32 = revision := by
        rw [max_eq_left (Int.natCast_nonneg revision), Int.toNat_natCast]
        exact Nat.mod_eq_of_lt h
      rw [PublishedRow.previous]
      show ((Previous.restated? hash ((max (revision : Int) 0).toNat % 2 ^ 32) updatedAt
        restatement).getD _) = _
      rw [hrevision, Previous.restated?, dif_pos above]
      rfl

/-- The hash of a record survives its row, whatever its revision. -/
theorem previous_row_hash (previous : Previous) : previous.row.previous.hash = previous.hash := by
  cases previous with
  | first hash updatedAt => rfl
  | restated hash revision updatedAt restatement above =>
      show ((Previous.restated? hash ((max (revision : Int) 0).toNat % 2 ^ 32) updatedAt
        restatement).getD (.first hash updatedAt)).hash = hash
      rw [Previous.restated?]
      split
      · rfl
      · rfl

theorem all_record (published : Published) (state : Table String Previous) (d : String) :
    (published.record state).all[d]?
      = (state[d]?.map fun previous => previous.row.previous).or published.all[d]? := by
  rw [Published.all, Published.record, Std.ExtTreeMap.getElem?_map,
    Std.ExtTreeMap.getElem?_union, Std.ExtTreeMap.getElem?_map, Published.all,
    Std.ExtTreeMap.getElem?_map]
  cases state[d]? with
  | none => simp
  | some previous => simp

theorem all_record_hash (published : Published) (state : Table String Previous) (d : String) :
    (published.record state).all[d]?.map Previous.hash
      = (state[d]?.map Previous.hash).or (published.all[d]?.map Previous.hash) := by
  rw [all_record]
  cases state[d]? with
  | none => rfl
  | some previous => simp [previous_row_hash]

end Publish
