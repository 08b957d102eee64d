import Bestiario.Absence
import Bestiario.Restatement

/-! # The hash of a payload and its bytes

    The index says of each document the hash of its payload, and a client
    checks it over the payload it was sent.  The two are not one text: the hash
    is taken over the members as they are declared, and what is sent went
    through a map, whose keys are sorted.  A window payload is declared `range`
    first and sent `metrics` first; a series payload is declared `period` first
    and sent `columns` first. -/

namespace Publish

open Stats (Floats Data)

variable {F : Type} {A : Floats F}

/-- The payload as the content of the event has it. -/
def Document.payloadText (A : Floats F) (document : Document F) : String :=
  Json.text (Json.toValue (document.envelope.payload.json A))

/-- **THE PAYLOAD CLOSES THE CONTENT**: what stands between its key and the last
    brace is `payloadText`. -/
theorem content_eq (document : Document F) :
    ∃ before, document.content A
      = before ++ "\"payload\":" ++ document.payloadText A ++ "\x7d" := by
  obtain ⟨before, hbefore⟩ := Json.renderMembers_concat
    ([("schema_version", Json.Value.num (toString document.envelope.schemaVersion)),
        ("snapshot_id", .str document.envelope.snapshotId),
        ("generated_at", .str document.envelope.generatedAt),
        ("revision", .num (toString document.envelope.revision))]
      ++ (document.envelope.restatedAt.map fun text => ("restated_at", Json.Value.str text)).toList
      ++ (document.envelope.restatedBecause.map fun text =>
        ("restated_because", Json.Value.str text)).toList)
    "payload" (Json.toValue (document.envelope.payload.json A))
  refine ⟨String.ofList ('\x7b' :: before), ?_⟩
  have hquote : Json.quote "payload" ++ [':'] = "\"payload\":".toList := by decide +kernel
  apply String.ext
  rw [Document.content, Json.text, Envelope.json, Json.render, hbefore, Document.payloadText,
    Json.text]
  simp [← hquote]

/-- **NO PAYLOAD IS SENT AS IT WAS HASHED.** -/
theorem payload_text_ne (payload : Payload F) :
    Json.text (payload.json A) ≠ Json.text (Json.toValue (payload.json A)) := by
  cases payload with
  | window payload =>
      exact Json.text_ne_of_keys (rfl : "range".toList = 'r' :: _)
        (rfl : "metrics".toList = 'm' :: _) rfl rfl (by decide)
  | series payload =>
      exact Json.text_ne_of_keys (rfl : "period".toList = 'p' :: _)
        (rfl : "columns".toList = 'c' :: _) rfl rfl (by decide)

/-- What a run computes, or publishes of it, has the hash of its own payload. -/
theorem hash_eq {digest : String → String} {data : Data F} {coverage : Coverage}
    {snapshotId : String} {now : Int} {previous : Keyed.Table String Previous}
    {because : Because} {republish : Republish} {document : Document F}
    (h : document ∈ (Snapshot.compute digest A data coverage snapshotId now).documents
      ∨ document ∈ ((Snapshot.compute digest A data coverage snapshotId now).restated previous
          because republish).snapshot.documents) :
    document.hash = hashOf digest A document.envelope.payload := by
  rcases h with h | h
  · exact (Snapshot.answer_of_mem h).2
  · rw [restated_documents] at h
    obtain ⟨original, horiginal, rfl⟩ := List.mem_map.mp h
    rw [Snapshot.placed, against_hash, against_payload]
    exact (Snapshot.answer_of_mem horiginal).2

/-- No document verifies: the hash in its entry is never that of the payload its
    content closes with. -/
theorem hash_never_of_content (digest : String → String) (hdigest : digest.Injective)
    (A : Floats F) (data : Data F) (coverage : Coverage) (snapshotId : String) (now : Int)
    (previous : Keyed.Table String Previous) (because : Because) (republish : Republish) :
    (∀ document : Document F,
      document ∈ (Snapshot.compute digest A data coverage snapshotId now).documents
          ∨ document ∈ ((Snapshot.compute digest A data coverage snapshotId now).restated
              previous because republish).snapshot.documents →
        (∃ before, document.content A
            = before ++ "\"payload\":" ++ document.payloadText A ++ "\x7d")
          ∧ (entry document).hash ≠ digest (document.payloadText A))
      ∧ ∀ payload : Payload F,
        Json.text (payload.json A) ≠ Json.text (Json.toValue (payload.json A)) := by
  refine ⟨fun document h => ⟨content_eq document, ?_⟩, payload_text_ne⟩
  show document.hash ≠ _
  rw [hash_eq h, hashOf]
  intro hsame
  exact payload_text_ne document.envelope.payload (hdigest hsame)

/-- An empty archive, hashed by a digest that loses nothing: its index names the
    orders of the whole archive by a hash their content does not have. -/
theorem noData_unverified :
    ∃ document ∈ (Snapshot.compute id .whole noData (.between 0 0) "1" 86400).documents,
      document.address = .window .orders .all none
        ∧ (entry document).hash ≠ id (document.payloadText .whole) := by
  generalize noData = data
  obtain ⟨document, hmem, haddress⟩ := Snapshot.exists_window id .whole data (.between 0 0) "1"
    86400 .orders .all
  refine ⟨document, hmem, haddress, ?_⟩
  show document.hash ≠ _
  rw [(Snapshot.answer_of_mem hmem).2, hashOf]
  exact payload_text_ne document.envelope.payload

/-- The same archive and digest, under the theorem: nothing a run over it
    publishes verifies. -/
theorem noData_never_verifies :
    Function.Injective (id : String → String)
      ∧ ∀ document ∈ (Snapshot.compute id Floats.whole noData (.between 0 0) "1" 86400).documents,
        (entry document).hash ≠ id (document.payloadText Floats.whole) := by
  refine ⟨Function.injective_id, ?_⟩
  intro document h
  exact ((hash_never_of_content id Function.injective_id Floats.whole noData (.between 0 0) "1"
    86400 ∅ .backfill .no).1 document (.inl h)).2

end Publish
