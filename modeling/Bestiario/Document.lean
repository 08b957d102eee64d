import Std.Data.String.ToInt
import Bestiario.Partitions

/-! # Documents

    The shapes of `crates/stats/src/publish/snapshot.rs` and `document.rs`: the
    two payloads, the envelope of a run around one, and the hash.

    A payload is serialised twice.  The hash is taken over its members in the
    order they are declared; the content of the event goes through a dynamic
    value first.  The envelope keeps the payload as it was computed, and turns
    it where it is written. -/

namespace Publish

open Stats (Metric MetricKind Floats rfc3339)

variable {F : Type}

/-! ## Payloads -/

/-- A half-open span as the documents write it. -/
structure Range where
  from' : String
  until' : String
  deriving DecidableEq, Repr

/-- `Range::of`. -/
def Range.of (window : Stats.Window) : Range := ⟨rfc3339 window.from', rfc3339 window.until'⟩

def Range.json (range : Range) : Json.Value :=
  .obj [("from", .str range.from'), ("until", .str range.until')]

/-- The payload of a window document. -/
structure WindowPayload (F : Type) where
  range : Range
  metrics : List (Metric F)

/-- `window_payload`. -/
def windowPayload (window : Stats.Window) (metrics : List (Metric F)) : WindowPayload F :=
  ⟨.of window, metrics⟩

/-- The members of a window payload, as declared. -/
def WindowPayload.json (A : Floats F) (payload : WindowPayload F) : Json.Value :=
  .obj [("range", payload.range.json), ("metrics", .arr (payload.metrics.map (Metric.json A)))]

/-- One column of a series partition. -/
structure Column where
  name : String
  kind : Option MetricKind
  unit : String
  error : Option String
  deriving DecidableEq, Repr

/-- A kind, in lowercase. -/
def kindText : MetricKind → String
  | .observed => "observed"
  | .inferred => "inferred"

/-- The members of a column; what is absent is left out. -/
def Column.json (column : Column) : Json.Value :=
  .obj ([("name", Json.Value.str column.name)]
    ++ (column.kind.map fun kind => ("kind", Json.Value.str (kindText kind))).toList
    ++ [("unit", .str column.unit)]
    ++ (column.error.map fun error => ("error", Json.Value.str error)).toList)

/-- The payload of a series partition: one row per bucket, its key first. -/
structure SeriesPayload where
  period : Range
  resolution : String
  columns : List Column
  rows : List (List Json.Value)

/-- The members of a series payload, as declared. -/
def SeriesPayload.json (payload : SeriesPayload) : Json.Value :=
  .obj [("period", payload.period.json), ("resolution", .str payload.resolution),
    ("columns", .arr (payload.columns.map Column.json)),
    ("rows", .arr (payload.rows.map .arr))]

/-- What a document says. -/
inductive Payload (F : Type) where
  | window (payload : WindowPayload F)
  | series (payload : SeriesPayload)

/-- The payload as it is serialised on its own. -/
def Payload.json (A : Floats F) : Payload F → Json.Value
  | .window payload => payload.json A
  | .series payload => payload.json

/-- `hash_of`: the lowercase hex SHA-256 (`digest`) of the payload's bytes. -/
def hashOf (digest : String → String) (A : Floats F) (payload : Payload F) : String :=
  digest (Json.text (payload.json A))

/-! ## The run around the answer -/

def schemaVersion : Nat := 1

/-- One publication run. -/
structure Run where
  snapshotId : String
  generatedAt : Int
  deriving DecidableEq, Repr

/-- Why a document's figures moved, and when. -/
structure Restatement where
  at' : Int
  because : String
  deriving DecidableEq, Repr

/-- A document's content.  A revision above the first is a restatement and says
    when and why; the first has neither. -/
structure Envelope (F : Type) where
  schemaVersion : Nat
  snapshotId : String
  generatedAt : String
  revision : Nat
  restatedAt : Option String
  restatedBecause : Option String
  payload : Payload F
  together : restatedAt.isSome = decide (1 < revision)
    ∧ restatedBecause.isSome = decide (1 < revision)

namespace Envelope

/-- `Envelope::first`. -/
def first (run : Run) (payload : Payload F) : Envelope F where
  schemaVersion := Publish.schemaVersion
  snapshotId := run.snapshotId
  generatedAt := rfc3339 run.generatedAt
  revision := 1
  restatedAt := none
  restatedBecause := none
  payload := payload
  together := ⟨rfl, rfl⟩

/-- `Envelope::restated`: `none` at the first revision. -/
def restated (run : Run) (revision : Nat) (restatement : Restatement) (payload : Payload F) :
    Option (Envelope F) :=
  if h : 1 < revision then
    some { first run payload with
      revision := revision
      restatedAt := some (rfc3339 restatement.at')
      restatedBecause := some restatement.because
      together := ⟨(decide_eq_true h).symm, (decide_eq_true h).symm⟩ }
  else none

/-- `parse_rfc3339`. -/
def parseRfc3339 (text : String) : Option Int := Timestamp.parse text.toList

/-- `Envelope::restatement`: back in unix seconds. -/
def restatement (envelope : Envelope F) : Option Restatement := do
  let at' ← envelope.restatedAt.bind parseRfc3339
  let because ← envelope.restatedBecause
  return ⟨at', because⟩

/-- The members of an envelope: the run first, the answer last and as a dynamic
    value. -/
def json (A : Floats F) (envelope : Envelope F) : Json.Value :=
  .obj ([("schema_version", Json.Value.num (toString envelope.schemaVersion)),
      ("snapshot_id", .str envelope.snapshotId),
      ("generated_at", .str envelope.generatedAt),
      ("revision", .num (toString envelope.revision))]
    ++ (envelope.restatedAt.map fun text => ("restated_at", Json.Value.str text)).toList
    ++ (envelope.restatedBecause.map fun text =>
      ("restated_because", Json.Value.str text)).toList
    ++ [("payload", Json.toValue (envelope.payload.json A))])

end Envelope

/-- One document of a snapshot. -/
structure Document (F : Type) where
  address : Address
  envelope : Envelope F
  hash : String
  updatedAt : Int
  period : Option Stats.Window

/-- `Document::content`: the envelope, serialised. -/
def Document.content (A : Floats F) (document : Document F) : String :=
  Json.text (document.envelope.json A)

/-- Every document of one run. -/
structure Snapshot (F : Type) where
  run : Run
  coverage : Coverage
  documents : List (Document F)

end Publish
