import Bestiario.Absence
import Bestiario.Relay
import Bestiario.Lib.Compact

/-! # What is signed, and how large it may be

    `crates/stats/src/publish/document.rs` and `size.rs`, `src/nostr/signer.rs` and
    `nip11.rs`.  An event is posted with tags read off the ADDRESS and a content that
    carries the PAYLOAD; the two were computed apart and say the same
    (`tags_tell_content`).

    Before anything is signed every content is weighed against the least of the
    configured ceiling and what the relays advertise. -/

namespace Publish

open Keyed
open Stats (rfc3339 Floats)

variable {F : Type}

/-! ## The name of a run -/

/-- `snapshot_id`: the run's clock in one run of characters, or the number where there
    is no such date. -/
def snapshotId (now : Int) : String :=
  match Stats.fromTimestamp now with
  | some _ => String.ofList (Timestamp.compact now)
  | none => toString now

/-- A number is written in digits, after a sign. -/
theorem mem_toString_int {n : Int} {c : Char} (h : c ∈ (toString n).toList) :
    c = '-' ∨ c.isDigit = true := by
  have hdigits : ∀ m : Nat, c ∈ (Nat.repr m).toList → c.isDigit = true := by
    intro m hc
    rw [Nat.repr_eq_ofList_toDigits, String.toList_ofList] at hc
    exact Nat.isDigit_of_mem_toDigits (by decide) (by decide) hc
  cases n with
  | ofNat m => exact Or.inr (hdigits m h)
  | negSucc m =>
      change c ∈ ("-" ++ Nat.repr (m + 1)).toList at h
      rw [String.toList_append] at h
      rcases List.mem_append.mp h with hsign | hdigit
      · exact Or.inl (List.mem_singleton.mp hsign)
      · exact Or.inr (hdigits _ hdigit)

theorem mem_compact (t : Int) : 'T' ∈ Timestamp.compact t := by
  rw [Timestamp.compact, Timestamp.compactRest]
  simp

/-- **NO TWO CLOCKS NAME ONE RUN**, whether or not there is such a date. -/
theorem snapshotId_injective : Function.Injective snapshotId := by
  intro t t' heq
  have hmixed : ∀ a b : Int, String.ofList (Timestamp.compact a) ≠ toString b := by
    intro a b hab
    have hmem : 'T' ∈ (toString b).toList := by
      rw [← hab, String.toList_ofList]
      exact mem_compact a
    rcases mem_toString_int hmem with hsign | hdigit
    · exact absurd hsign (by decide)
    · exact absurd hdigit (by decide)
  rw [snapshotId, snapshotId] at heq
  cases hdate : Stats.fromTimestamp t with
  | some d =>
      cases hdate' : Stats.fromTimestamp t' with
      | some d' =>
          rw [hdate, hdate'] at heq
          exact Timestamp.compact_inj (String.ofList_injective heq)
      | none =>
          rw [hdate, hdate'] at heq
          exact absurd heq (hmixed t t')
  | none =>
      cases hdate' : Stats.fromTimestamp t' with
      | some d' =>
          rw [hdate, hdate'] at heq
          exact absurd heq.symm (hmixed t' t)
      | none =>
          rw [hdate, hdate'] at heq
          exact Int.repr_injective heq

/-- A date of four digits is one chrono knows. -/
theorem fromTimestamp_fourDigit {t : Int} (h : Timestamp.FourDigit t) :
    Stats.fromTimestamp t = some (Calendar.DateTime.ofUnix t) := by
  obtain ⟨h0, h9⟩ := h
  exact if_pos ⟨by omega, by omega⟩

/-- **RUNS ARE NAMED IN THE ORDER OF THEIR CLOCKS**, over the years of four digits. -/
theorem snapshotId_lt_iff {t t' : Int} (h : Timestamp.FourDigit t)
    (h' : Timestamp.FourDigit t') : snapshotId t < snapshotId t' ↔ t < t' := by
  rw [snapshotId, snapshotId, fromTimestamp_fourDigit h, fromTimestamp_fourDigit h',
    String.lt_iff, String.toList_ofList, String.toList_ofList]
  exact Timestamp.compact_lt_iff h h'

/-- The last second of a year, and the first of the next. -/
theorem snapshotId_new_year : snapshotId 1798761599 < snapshotId 1798761600 :=
  (snapshotId_lt_iff (by decide) (by decide)).mpr (by decide)

example : snapshotId 1798761599 = "20261231T235959Z" := by decide +kernel

/-! ## Tags -/

/-- One tag: a name and its values. -/
structure Tag where
  name : String
  values : List String
  deriving DecidableEq

/-- `Tag::single`. -/
def Tag.single (name value : String) : Tag := ⟨name, [value]⟩

/-- `TOPIC`. -/
def topic : String := "bestiario"

/-- `describe`. -/
def describe : Report → String
  | .summary => "network summary"
  | .orders => "orders"
  | .volume => "volume"
  | .market => "market structure"
  | .disputes => "disputes"
  | .devFees => "dev fees"
  | .instances => "instances"
  | .compare => "instance comparison"

/-- `span`. -/
def spanText : Window → String
  | .hours24 => "24 hours"
  | .days7 => "7 days"
  | .days30 => "30 days"
  | .days90 => "90 days"
  | .all => "whole archive"

/-- `spanned`. -/
def spanned (bucket : Bucket) : String :=
  match bucket with
  | .month _ _ => "month " ++ bucket.toString
  | .year _ => "year " ++ bucket.toString

/-- Whom a document is about, in words. -/
def scopedText : Option Scope → String
  | none => ""
  | some (.instance' pubkey _) => " for instance " ++ pubkey
  | some (.network network _) => " on " ++ network

/-- `alt`. -/
def alt : Address → String
  | .index none => "bestiario index: the documents of the current snapshot"
  | .index (some year) =>
      "bestiario index for " ++ year.toString ++ ": the documents of that year"
  | .window report window scope =>
      "bestiario " ++ describe report ++ " report over the last " ++ spanText window
        ++ scopedText scope
  | .series report partition scope =>
      "bestiario " ++ describe report ++ " series, " ++ partition.resolution.asStr
        ++ " buckets, " ++ spanned partition.bucket ++ scopedText scope

/-- What a series names beside its address. -/
def seriesTags : Address → List Tag
  | .series _ partition _ =>
      [.single "resolution" partition.resolution.asStr,
        ⟨"period", [rfc3339 partition.window.from', rfc3339 partition.window.until']⟩]
  | _ => []

/-- `tags`. -/
def tags (address : Address) (run : Run) (revision : Nat) : List Tag :=
  [.single "d" address.toString, .single "s" run.snapshotId, .single "t" topic,
    .single "alt" (alt address)]
    ++ seriesTags address
    ++ [.single "revision" (toString revision),
      .single "schema_version" (toString schemaVersion)]

/-! ## Events -/

/-- An event as it is signed; the signature and the id follow from it and the key. -/
structure Posting where
  kind : UInt16
  tags : List Tag
  content : String
  createdAt : Int
  deriving DecidableEq

/-- `KIND`. -/
def documentKind : UInt16 := 30666

namespace Index

/-- `Index::address`. -/
def address (_ : Index) : Address := .index none

/-- A text, or `null`. -/
def nullable (text : Option String) : Json.Value := text.elim .null .str

/-- The members of an entry; what is absent is left out. -/
def entryJson (entry : Entry) : Json.Value :=
  .obj ([("d", Json.Value.str entry.d), ("hash", .str entry.hash),
      ("revision", .num (toString entry.revision)), ("updated_at", .str entry.updatedAt)]
    ++ (entry.restatedAt.map fun text => ("restated_at", Json.Value.str text)).toList
    ++ (entry.restatedBecause.map fun text => ("restated_because", Json.Value.str text)).toList)

/-- The members of an index, as declared; the resolutions by name. -/
def json (index : Index) : Json.Value :=
  .obj [("schema_version", .num (toString index.schemaVersion)),
    ("snapshot_id", .str index.snapshotId), ("generated_at", .str index.generatedAt),
    ("publisher", .obj [("name", .str index.publisher.name),
      ("version", .str index.publisher.version)]),
    ("coverage", .obj [("first_event_at", nullable index.coverage.firstEventAt),
      ("last_event_at", nullable index.coverage.lastEventAt)]),
    ("resolutions", .obj (index.resolutions.toList.map fun span =>
      (span.1, .obj [("from", .str span.2.from'), ("until", .str span.2.until')]))),
    ("documents", .arr (index.documents.map entryJson))]

/-- `Index::content`. -/
def content (index : Index) : String := Json.text index.json

end Index

namespace Signer

/-- `signed`. -/
def signed (tags : List Tag) (content : String) (run : Run) : Posting :=
  ⟨documentKind, tags, content, run.createdAt⟩

/-- `sign`. -/
def sign (A : Floats F) (run : Run) (document : Document F) : Posting :=
  signed (tags document.address run document.envelope.revision) (document.content A) run

/-- `sign_index`: an index is at its first revision, always. -/
def signIndex (run : Run) (index : Index) : Posting :=
  signed (tags index.address run 1) index.content run

end Signer

/-! ## The ceiling -/

/-- `Ceiling`: the largest content, and the relay that set it. -/
structure Ceiling where
  bytes : Nat
  relay : Option String
  deriving DecidableEq

/-- What one relay advertises. -/
structure Advertised where
  relay : String
  maxContentLength : Option Nat
  deriving DecidableEq

/-- `http_url`: the address NIP-11 is served from. -/
def httpUrl (relay : String) : String :=
  match splitAt "://".toList relay.toList with
  | some (scheme, rest) =>
      if scheme = "wss".toList then "https://" ++ String.ofList rest
      else if scheme = "ws".toList then "http://" ++ String.ofList rest
      else relay
  | none => relay
where
  /-- `split_once`: what stands before the first occurrence and what after it. -/
  splitAt (pattern : List Char) : List Char → Option (List Char × List Char)
    | [] => none
    | c :: text =>
        if pattern.isPrefixOf (c :: text) then some ([], (c :: text).drop pattern.length)
        else (splitAt pattern text).map fun parts => (c :: parts.1, parts.2)

/-- `limit_of`: the limit a relay states, if it is one a content can be held to.
    `serves` is `limitation.max_content_length` of what is served at an address. -/
def limitOf (serves : String → Option Int) (relay : String) : Option Nat :=
  (serves (httpUrl relay)).bind fun limit => if 0 ≤ limit then some limit.toNat else none

/-- `limits`: every relay asked, in the order given. -/
def limits (serves : String → Option Int) (relays : List String) : List Advertised :=
  relays.map fun relay => ⟨relay, limitOf serves relay⟩

namespace Ceiling

/-- `Ceiling::configured`. -/
def configured (bytes : Nat) : Ceiling := ⟨bytes, none⟩

/-- `Ceiling::and_relay`: lowered, never raised. -/
def andRelay (ceiling : Ceiling) (relay : String) (advertised : Nat) : Ceiling :=
  if advertised < ceiling.bytes then ⟨advertised, some relay⟩ else ceiling

/-- The ceiling with what every relay advertises. -/
def lowered (ceiling : Ceiling) (advertised : List Advertised) : Ceiling :=
  advertised.foldl (fun ceiling relay =>
    match relay.maxContentLength with
    | some limit => ceiling.andRelay relay.relay limit
    | none => ceiling) ceiling

/-- The limits the relays state. -/
def stated (advertised : List Advertised) : List Nat :=
  advertised.filterMap Advertised.maxContentLength

/-- **A CEILING HOLDS FOR EVERYONE**: a content fits under it exactly when it fits under
    the configured ceiling and under every limit a relay states. -/
theorem le_lowered_iff (ceiling : Ceiling) (advertised : List Advertised) (bytes : Nat) :
    bytes ≤ (ceiling.lowered advertised).bytes
      ↔ bytes ≤ ceiling.bytes ∧ ∀ limit ∈ stated advertised, bytes ≤ limit := by
  induction advertised generalizing ceiling with
  | nil => simp [lowered, stated]
  | cons relay rest ih =>
      cases hlimit : relay.maxContentLength with
      | none =>
          have hstated : stated (relay :: rest) = stated rest := by
            rw [stated, List.filterMap_cons_none hlimit]
            rfl
          rw [lowered, List.foldl_cons, hlimit, hstated]
          exact ih ceiling
      | some limit =>
          have hstated : stated (relay :: rest) = limit :: stated rest := by
            rw [stated, List.filterMap_cons_some hlimit]
            rfl
          rw [lowered, List.foldl_cons, hlimit, hstated]
          refine (ih (ceiling.andRelay relay.relay limit)).trans ?_
          rw [andRelay, List.forall_mem_cons, ← and_assoc]
          by_cases hlower : limit < ceiling.bytes
          · rw [if_pos hlower]
            exact and_congr_left' ⟨fun h => ⟨le_trans h (le_of_lt hlower), h⟩, And.right⟩
          · rw [if_neg hlower]
            exact and_congr_left' ⟨fun h => ⟨h, le_trans h (not_lt.mp hlower)⟩, And.left⟩

/-- The relay named is the first that states the ceiling, and only a lower one is
    named. -/
theorem lowered_relay (ceiling : Ceiling) (advertised : List Advertised) :
    ceiling.lowered advertised = ceiling
      ∨ ∃ before relay after, advertised = before ++ relay :: after
        ∧ relay.maxContentLength = some (ceiling.lowered advertised).bytes
        ∧ (ceiling.lowered advertised).relay = some relay.relay
        ∧ (ceiling.lowered advertised).bytes < ceiling.bytes
        ∧ ∀ limit ∈ stated before, (ceiling.lowered advertised).bytes < limit := by
  induction advertised using List.reverseRecOn with
  | nil => exact Or.inl rfl
  | append_singleton advertised relay ih =>
      have hlast : ceiling.lowered (advertised ++ [relay])
          = match relay.maxContentLength with
            | some limit => (ceiling.lowered advertised).andRelay relay.relay limit
            | none => ceiling.lowered advertised := by
        rw [lowered, List.foldl_append]
        rfl
      have hkept : ceiling.lowered (advertised ++ [relay]) = ceiling.lowered advertised →
          ceiling.lowered (advertised ++ [relay]) = ceiling
            ∨ ∃ before relay' after, advertised ++ [relay] = before ++ relay' :: after
              ∧ relay'.maxContentLength = some (ceiling.lowered (advertised ++ [relay])).bytes
              ∧ (ceiling.lowered (advertised ++ [relay])).relay = some relay'.relay
              ∧ (ceiling.lowered (advertised ++ [relay])).bytes < ceiling.bytes
              ∧ ∀ limit ∈ stated before,
                  (ceiling.lowered (advertised ++ [relay])).bytes < limit := by
        intro heq
        rw [heq]
        rcases ih with hsame | ⟨before, first, after, hsplit, hfirst⟩
        · exact Or.inl hsame
        · exact Or.inr ⟨before, first, after ++ [relay], by rw [hsplit]; simp, hfirst⟩
      cases hlimit : relay.maxContentLength with
      | none =>
          rw [hlimit] at hlast
          exact hkept hlast
      | some limit =>
          rw [hlimit] at hlast
          by_cases hlower : limit < (ceiling.lowered advertised).bytes
          · have hnew : ceiling.lowered (advertised ++ [relay]) = ⟨limit, some relay.relay⟩ :=
              hlast.trans (if_pos hlower)
            obtain ⟨hceiling, hstated⟩ :=
              (le_lowered_iff ceiling advertised (limit + 1)).mp hlower
            refine Or.inr ⟨advertised, relay, [], rfl, ?_⟩
            rw [hnew]
            exact ⟨hlimit, rfl, hceiling, hstated⟩
          · exact hkept (hlast.trans (if_neg hlower))

end Ceiling

/-- One document weighed. -/
structure Measured where
  address : Address
  bytes : Nat
  hash : Option String
  deriving DecidableEq

/-- `measure`. -/
def measure (A : Floats F) (documents : List (Document F)) : List Measured :=
  documents.map fun document =>
    ⟨document.address, (document.content A).utf8ByteSize, some document.hash⟩

/-- `measure_index`. -/
def measureIndex (index : Index) : Measured :=
  ⟨index.address, index.content.utf8ByteSize, none⟩

/-- `over`: every document that does not fit, in order. -/
def Measured.over (measured : List Measured) (ceiling : Ceiling) : List Measured :=
  measured.filter fun document => decide (document.bytes > ceiling.bytes)

/-! ## Tags and content -/

/-- The values of the first tag of a name. -/
def Posting.tag (posting : Posting) (name : String) : Option (List String) :=
  (posting.tags.find? fun tag => tag.name == name).map Tag.values

section Tags

variable {A : Floats F} {run : Run} {document : Document F}

/-- What every document is tagged with. -/
theorem sign_tag (A : Floats F) (run : Run) (document : Document F) :
    (Signer.sign A run document).tag "d" = some [document.address.toString]
      ∧ (Signer.sign A run document).tag "s" = some [run.snapshotId]
      ∧ (Signer.sign A run document).tag "revision"
        = some [toString document.envelope.revision]
      ∧ (Signer.sign A run document).tag "schema_version" = some [toString schemaVersion] := by
  cases hcase : document.address with
  | index year =>
      simp [Posting.tag, Signer.sign, Signer.signed, tags, seriesTags, Tag.single, hcase]
  | window report window scope =>
      simp [Posting.tag, Signer.sign, Signer.signed, tags, seriesTags, Tag.single, hcase]
  | series report partition scope =>
      simp [Posting.tag, Signer.sign, Signer.signed, tags, seriesTags, Tag.single, hcase]

/-- What a series is tagged with, and nothing else is. -/
theorem sign_seriesTag (A : Floats F) (run : Run) (document : Document F) :
    (Signer.sign A run document).tag "resolution"
        = (match document.address with
          | .series _ partition _ => some [partition.resolution.asStr]
          | _ => none)
      ∧ (Signer.sign A run document).tag "period"
        = (match document.address with
          | .series _ partition _ =>
              some [rfc3339 partition.window.from', rfc3339 partition.window.until']
          | _ => none) := by
  cases hcase : document.address with
  | index year =>
      simp [Posting.tag, Signer.sign, Signer.signed, tags, seriesTags, Tag.single, hcase]
  | window report window scope =>
      simp [Posting.tag, Signer.sign, Signer.signed, tags, seriesTags, Tag.single, hcase]
  | series report partition scope =>
      simp [Posting.tag, Signer.sign, Signer.signed, tags, seriesTags, Tag.single, hcase]

end Tags

/-- What a payload says of its span: a series its period and its resolution. -/
def Payload.spans : Payload F → Option (Range × String)
  | .window _ => none
  | .series payload => some (payload.period, payload.resolution)

theorem envelope_run (run : Run) (revision : Nat) (restatement : Option Restatement)
    (payload : Payload F) :
    (envelope run revision restatement payload).snapshotId = run.snapshotId
      ∧ (envelope run revision restatement payload).schemaVersion = schemaVersion := by
  rw [envelope]
  cases restatement with
  | none => exact ⟨rfl, rfl⟩
  | some restatement =>
      rw [Option.bind_some, Envelope.restated]
      split
      · exact ⟨rfl, rfl⟩
      · exact ⟨rfl, rfl⟩

/-- The span a computed document's payload names is its address's. -/
theorem spans_of_mem {digest : String → String} {A : Floats F} {data : Stats.Data F}
    {coverage : Coverage} {snapshotId : String} {now : Int} {document : Document F}
    (h : document ∈ (Snapshot.compute digest A data coverage snapshotId now).documents) :
    document.envelope.payload.spans
      = match document.address with
        | .series _ partition _ => some (.of partition.window, partition.resolution.asStr)
        | _ => none := by
  rcases Snapshot.mem_compute.mp h with ⟨report, span, rfl⟩ | ⟨report, family, slot, -, -, -, rfl⟩
    | ⟨profile, -, scope, span, -, rfl⟩
  · rfl
  · rfl
  · rfl

/-- **THE TAGS OF AN EVENT SAY WHAT ITS CONTENT SAYS.**  Whatever was published before,
    every document of a run is signed under its own address, with the run, the revision
    and the schema version its envelope carries; and it names a resolution and a period
    exactly when its payload does, and the same. -/
theorem tags_tell_content (digest : String → String) (A : Floats F) (data : Stats.Data F)
    (coverage : Coverage) (now : Int) (previous : Table String Previous) (because : Because)
    (republish : Republish) :
    let snapshot := ((Snapshot.compute digest A data coverage (snapshotId now) now).restated
      previous because republish).snapshot
    ∀ document ∈ snapshot.documents,
      let posting := Signer.sign A snapshot.run document
      posting.tag "d" = some [document.address.toString]
        ∧ posting.tag "s" = some [document.envelope.snapshotId]
        ∧ posting.tag "revision" = some [toString document.envelope.revision]
        ∧ posting.tag "schema_version" = some [toString document.envelope.schemaVersion]
        ∧ posting.tag "resolution"
          = document.envelope.payload.spans.map (fun span => [span.2])
        ∧ posting.tag "period"
          = document.envelope.payload.spans.map fun span => [span.1.from', span.1.until'] := by
  intro snapshot document hmem posting
  have hrun : snapshot.run = ⟨snapshotId now, now⟩ := by
    show ((Snapshot.compute digest A data coverage (snapshotId now) now).restated
      previous because republish).snapshot.run = _
    rw [restated_eq]
    rfl
  obtain ⟨hd, hs, hrevision, hversion⟩ := sign_tag A snapshot.run document
  obtain ⟨hresolution, hperiod⟩ := sign_seriesTag A snapshot.run document
  obtain ⟨computed, hcomputed, hplaced⟩ := List.mem_map.mp (restated_documents ▸ hmem)
  have hspans := spans_of_mem hcomputed
  have haddress : document.address = computed.address := by
    rw [← hplaced]
    exact against_address
  have hpayload : document.envelope.payload = computed.envelope.payload := by
    rw [← hplaced]
    exact against_payload
  have hcarried : document.envelope.snapshotId = snapshotId now
      ∧ document.envelope.schemaVersion = schemaVersion := by
    rw [← hplaced, Snapshot.placed, against_eq]
    exact envelope_run _ _ _ _
  rw [← haddress, ← hpayload] at hspans
  refine ⟨hd, ?_, hrevision, ?_, ?_, ?_⟩
  · rw [hcarried.1]
    exact hs.trans (by rw [hrun])
  · rw [hcarried.2]
    exact hversion
  · rw [hspans]
    refine hresolution.trans ?_
    cases document.address with
    | index year => rfl
    | window report window scope => rfl
    | series report partition scope => rfl
  · rw [hspans]
    refine hperiod.trans ?_
    cases document.address with
    | index year => rfl
    | window report window scope => rfl
    | series report partition scope => rfl

/-- The last month of no orders. -/
theorem noData_tags : ∃ document ∈ ((Snapshot.compute id Floats.whole noData (.between 0 0)
      (snapshotId 86400) 86400).restated ∅ .backfill .no).snapshot.documents,
    document.address = .window .orders .days30 none
      ∧ (Signer.sign Floats.whole ⟨snapshotId 86400, 86400⟩ document).tag "period"
        = document.envelope.payload.spans.map fun span => [span.1.from', span.1.until'] := by
  obtain ⟨computed, hmem, haddress⟩ : ∃ computed ∈ (Snapshot.compute id Floats.whole noData
      (.between 0 0) (snapshotId 86400) 86400).documents,
      computed.address = .window .orders .days30 none :=
    ⟨_, Snapshot.mem_compute.mpr (Or.inl ⟨.orders, .days30, rfl⟩), rfl⟩
  have hrestated : ((Snapshot.compute id Floats.whole noData (.between 0 0) (snapshotId 86400)
      86400).restated ∅ .backfill .no).snapshot.documents = _ := restated_documents
  have hplaced := List.mem_map_of_mem (f := fun document => ((Snapshot.compute id Floats.whole
    noData (.between 0 0) (snapshotId 86400) 86400).placed ∅ .backfill document).1) hmem
  rw [← hrestated] at hplaced
  have htold := tags_tell_content id Floats.whole noData (.between 0 0) 86400 ∅ .backfill .no
    _ hplaced
  refine ⟨_, hplaced, against_address.trans haddress, ?_⟩
  exact htold.2.2.2.2.2

end Publish
