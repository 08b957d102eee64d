import Bestiario.Restatement

/-! # What the index says and what the relay holds

    `send_to` and `record` of `src/commands/publish.rs`, over one relay.  A run
    sends what it does not withhold, and its index last; it writes down what it
    concluded only after the index was accepted.  So a run that ABORTS leaves
    documents on the relay that the table knows nothing of, and the next run
    compares its figures with the table.

    An address is STRAY while the last document a relay accepted under it came
    from an aborted run and is not the recorded one.  A stray address heals when
    a document is accepted under it again (`stray_concat`). -/

namespace Publish

open Keyed

variable {F : Type}

/-! ## The relay -/

/-- A document as it reaches the relay. -/
structure Signed (F : Type) where
  document : Document F
  createdAt : Int
  id : Nat

/-- `created_at`: the run's clock, never before 1970. -/
def Run.createdAt (run : Run) : Int := max run.generatedAt 0

/-- `sign`; `ident` is the id the event hashes to. -/
def sign (ident : Run → Document F → Nat) (run : Run) (document : Document F) : Signed F :=
  ⟨document, run.createdAt, ident run document⟩

/-- The documents a relay holds, one under each `d`. -/
abbrev Relay (F : Type) := Table String (Signed F)

/-- One event: the later replaces the earlier, and of two as late the lower id. -/
def Relay.accept (relay : Relay F) (event : Signed F) : Relay F :=
  let d := event.document.address.toString
  match relay[d]? with
  | none => relay.insert d event
  | some held =>
      if held.createdAt < event.createdAt
          ∨ held.createdAt = event.createdAt ∧ event.id < held.id then
        relay.insert d event
      else relay

/-! ## Runs -/

/-- A run: what it computed, which of its documents the relay accepted and in
    which order, and whether it came to its end.  Two documents of one address
    agree, as those of a computed snapshot do (`compute_agree`). -/
structure Attempt (F : Type) where
  snapshot : Snapshot F
  because : Because
  republish : Republish
  arrivals : List (Document F)
  completed : Bool
  agree : ∀ document ∈ snapshot.documents, ∀ other ∈ snapshot.documents,
    document.address = other.address →
      document.hash = other.hash ∧ document.period = other.period

/-- The table a run reads, and the relay it sends to. -/
structure World (F : Type) where
  published : Published
  relay : Relay F

namespace World

/-- The hash recorded of an address. -/
def recordedHash (world : World F) (d : String) : Option String :=
  world.published.all[d]?.map Previous.hash

/-- The hash of the document the relay holds under `d`. -/
def heldHash (world : World F) (d : String) : Option String :=
  world.relay[d]?.map fun event => event.document.hash

end World

namespace Attempt

/-- The snapshot of a run placed against the table. -/
def restated (attempt : Attempt F) (world : World F) : Restated F :=
  attempt.snapshot.restated world.published.all attempt.because attempt.republish

/-- What can reach the relay: of what the run sends any part, and the whole of it
    if the run completes. -/
def Legal (attempt : Attempt F) (world : World F) : Prop :=
  (∀ document ∈ attempt.arrivals, document ∈ (attempt.restated world).sent)
    ∧ (attempt.completed = true →
      ∀ document ∈ (attempt.restated world).sent, document ∈ attempt.arrivals)

/-- Whether a document under `d` was accepted. -/
def Delivers (attempt : Attempt F) (d : String) : Prop :=
  ∃ document ∈ attempt.arrivals, document.address.toString = d

end Attempt

variable (ident : Run → Document F → Nat)

/-- The relay after a run's arrivals. -/
def Relay.receive (run : Run) (relay : Relay F) (arrivals : List (Document F)) : Relay F :=
  arrivals.foldl (fun relay document => relay.accept (sign ident run document)) relay

/-- A run: its documents reach the relay, and if it completes its conclusions
    reach the table. -/
def World.after (world : World F) (attempt : Attempt F) : World F where
  published :=
    if attempt.completed then world.published.record (attempt.restated world).state
    else world.published
  relay := Relay.receive ident attempt.snapshot.run world.relay attempt.arrivals

/-- The world after a sequence of runs. -/
def worldAfter (attempts : List (Attempt F)) : World F :=
  attempts.foldl (World.after ident) ⟨∅, ∅⟩

/-- A sequence of runs, each sending what it computed against the world it
    found. -/
def LegalRun (attempts : List (Attempt F)) : Prop :=
  ∀ before attempt after, attempts = before ++ attempt :: after →
    attempt.Legal (worldAfter ident before)

/-- The last document accepted under `d` came from an aborted run, and was not
    the recorded one. -/
def Stray (attempts : List (Attempt F)) (d : String) : Prop :=
  ∃ before attempt after, attempts = before ++ attempt :: after
    ∧ attempt.completed = false
    ∧ (∃ document ∈ attempt.arrivals, document.address.toString = d
      ∧ (worldAfter ident before).recordedHash d ≠ some document.hash)
    ∧ ∀ later ∈ after, ¬ later.Delivers d

theorem worldAfter_concat (attempts : List (Attempt F)) (attempt : Attempt F) :
    worldAfter ident (attempts ++ [attempt]) = (worldAfter ident attempts).after ident attempt := by
  rw [worldAfter, List.foldl_append]
  rfl

variable {ident}

/-! ## One run at the relay -/

/-- A later event always gets in. -/
theorem accept_lookup {relay : Relay F} {event : Signed F} (d : String)
    (h : ∀ held, relay[event.document.address.toString]? = some held →
      held.createdAt < event.createdAt
        ∨ held.createdAt = event.createdAt ∧ held.document.hash = event.document.hash) :
    ((relay.accept event)[d]?.map fun event => event.document.hash)
      = if event.document.address.toString = d then some event.document.hash
        else relay[d]?.map fun event => event.document.hash := by
  by_cases hd : event.document.address.toString = d
  · subst hd
    rw [if_pos rfl, Relay.accept]
    cases hheld : relay[event.document.address.toString]? with
    | none => simp
    | some held =>
        simp only
        split
        · simp
        · rename_i hnot
          rcases h held hheld with hlater | ⟨-, hhash⟩
          · exact absurd (.inl hlater) hnot
          · rw [hheld, Option.map_some, hhash]
  · rw [if_neg hd, Relay.accept]
    cases relay[event.document.address.toString]? with
    | none => simp [hd]
    | some held =>
        simp only
        split
        · simp [hd]
        · rfl

/-- An event at the relay was there, or has just arrived. -/
theorem mem_accept {relay : Relay F} {event held : Signed F} {d : String}
    (h : (relay.accept event)[d]? = some held) :
    relay[d]? = some held ∨ held = event ∧ event.document.address.toString = d := by
  have hinsert : (relay.insert event.document.address.toString event)[d]? = some held →
      relay[d]? = some held ∨ held = event ∧ event.document.address.toString = d := by
    intro hheld
    rw [getElem?_insert_eq] at hheld
    by_cases hd : event.document.address.toString = d
    · rw [if_pos hd] at hheld
      exact .inr ⟨(Option.some.inj hheld).symm, hd⟩
    · rw [if_neg hd] at hheld
      exact .inl hheld
  rw [Relay.accept] at h
  split at h
  · exact hinsert h
  · split at h
    · exact hinsert h
    · exact .inl h

section Receive

variable {run : Run} {relay : Relay F} {arrivals : List (Document F)} {d : String}

theorem receive_concat (document : Document F) :
    Relay.receive ident run relay (arrivals ++ [document])
      = (Relay.receive ident run relay arrivals).accept (sign ident run document) := by
  rw [Relay.receive, List.foldl_append]
  rfl

theorem mem_receive {held : Signed F}
    (h : (Relay.receive ident run relay arrivals)[d]? = some held) :
    relay[d]? = some held
      ∨ ∃ document ∈ arrivals, held = sign ident run document
          ∧ document.address.toString = d := by
  induction arrivals using List.reverseRecOn with
  | nil => exact .inl h
  | append_singleton arrivals document ih =>
      rw [receive_concat] at h
      rcases mem_accept h with hold | ⟨rfl, hd⟩
      · rcases ih hold with hrelay | ⟨arrived, hmem, hheld, hd⟩
        · exact .inl hrelay
        · exact .inr ⟨arrived, List.mem_append_left _ hmem, hheld, hd⟩
      · exact .inr ⟨document, by simp, rfl, hd⟩

/-- Where nothing of `d` arrives, the relay holds what it held. -/
theorem receive_of_not (h : ∀ document ∈ arrivals, document.address.toString ≠ d) :
    (Relay.receive ident run relay arrivals)[d]? = relay[d]? := by
  induction arrivals using List.reverseRecOn with
  | nil => rfl
  | append_singleton arrivals document ih =>
      have hd : document.address.toString ≠ d := h document (by simp)
      rw [receive_concat, ← ih fun other hother => h other (List.mem_append_left _ hother),
        Relay.accept]
      cases (Relay.receive ident run relay arrivals)[
          (sign ident run document).document.address.toString]? with
      | none => exact (getElem?_insert_eq _ _ _ _).trans (if_neg hd)
      | some held =>
          simp only
          split
          · exact (getElem?_insert_eq _ _ _ _).trans (if_neg hd)
          · rfl

/-- **WHAT ARRIVES REPLACES WHAT WAS HELD**: every event of an earlier run is
    older, and those of one run under one `d` have one hash. -/
theorem receive_of_mem {document : Document F}
    (hfresh : ∀ (d : String) held, relay[d]? = some held → held.createdAt < run.createdAt)
    (hagree : ∀ a ∈ arrivals, ∀ b ∈ arrivals, a.address = b.address → a.hash = b.hash)
    (hmem : document ∈ arrivals) :
    ((Relay.receive ident run relay arrivals)[document.address.toString]?.map
      fun event => event.document.hash) = some document.hash := by
  induction arrivals using List.reverseRecOn with
  | nil => cases hmem
  | append_singleton arrivals last ih =>
      have hheld : ∀ held, (Relay.receive ident run relay arrivals)[
          (sign ident run last).document.address.toString]? = some held →
          held.createdAt < (sign ident run last).createdAt
            ∨ held.createdAt = (sign ident run last).createdAt
              ∧ held.document.hash = (sign ident run last).document.hash := by
        intro held hlookup
        rcases mem_receive hlookup with hold | ⟨arrived, harrived, rfl, hd⟩
        · exact .inl (hfresh _ held hold)
        · exact .inr ⟨rfl, hagree arrived (List.mem_append_left _ harrived) last (by simp)
            (toString_injective hd)⟩
      rw [receive_concat, accept_lookup _ hheld]
      by_cases hd : last.address.toString = document.address.toString
      · exact (if_pos hd).trans
          (congrArg some (hagree last (by simp) document hmem (toString_injective hd)))
      · refine (if_neg hd).trans (ih ?_ ?_)
        · intro a ha b hb
          exact hagree a (List.mem_append_left _ ha) b (List.mem_append_left _ hb)
        · rcases List.mem_append.mp hmem with hmem | hmem
          · exact hmem
          · rw [List.mem_singleton] at hmem
            exact absurd (by rw [hmem]) hd

end Receive

/-! ## One run -/

section Step

variable {world : World F} {attempt : Attempt F} {d : String}

/-- A document that arrived is one the run computed, with its hash. -/
theorem Attempt.Legal.computed (h : attempt.Legal world) {document : Document F}
    (hmem : document ∈ attempt.arrivals) :
    document.address.toString ∉ (attempt.restated world).notSent
      ∧ ∃ original ∈ attempt.snapshot.documents,
          original.address = document.address ∧ original.hash = document.hash := by
  have hsent := h.1 document hmem
  rw [Restated.sent, List.mem_filter] at hsent
  obtain ⟨hplaced, hnot⟩ := hsent
  rw [Attempt.restated, restated_documents] at hplaced
  obtain ⟨original, horiginal, rfl⟩ := List.mem_map.mp hplaced
  exact ⟨of_decide_eq_true hnot, original, horiginal,
    by rw [Snapshot.placed, against_address], by rw [Snapshot.placed, against_hash]⟩

theorem Attempt.Legal.agree (h : attempt.Legal world) :
    ∀ a ∈ attempt.arrivals, ∀ b ∈ attempt.arrivals, a.address = b.address → a.hash = b.hash := by
  intro a ha b hb hsame
  obtain ⟨-, original, horiginal, haddress, hhash⟩ := h.computed ha
  obtain ⟨-, original', horiginal', haddress', hhash'⟩ := h.computed hb
  rw [← hhash, ← hhash']
  exact (attempt.agree original horiginal original' horiginal'
    (haddress.trans (hsame.trans haddress'.symm))).1

theorem sendsUnchanged_congr {document other : Document F} (republish : Republish)
    (haddress : document.address = other.address) (hperiod : document.period = other.period) :
    republish.sendsUnchanged document = republish.sendsUnchanged other := by
  cases republish with
  | no => rfl
  | all => rfl
  | range asked => rw [Republish.sendsUnchanged, Republish.sendsUnchanged, haddress, hperiod]

/-- A run withholds an address when its hash is the recorded one and nothing
    asked for it. -/
theorem mem_notSent_iff {document : Document F} (hmem : document ∈ attempt.snapshot.documents) :
    document.address.toString ∈ (attempt.restated world).notSent
      ↔ world.recordedHash document.address.toString = some document.hash
          ∧ attempt.republish.sendsUnchanged document = false := by
  have hplaced : ∀ other : Document F, attempt.republish.sendsUnchanged
      (attempt.snapshot.placed world.published.all attempt.because other).1
        = attempt.republish.sendsUnchanged other :=
    fun other => sendsUnchanged_congr _ against_kept.1 against_kept.2.2.1
  rw [Attempt.restated, mem_notSent]
  constructor
  · rintro ⟨other, hother, haddress, hsame, hasked⟩
    have haddress := toString_injective haddress
    obtain ⟨hhash, hperiod⟩ := attempt.agree other hother document hmem haddress
    rw [hplaced, sendsUnchanged_congr _ haddress hperiod] at hasked
    rw [haddress, hhash] at hsame
    exact ⟨hsame, hasked⟩
  · rintro ⟨hsame, hasked⟩
    exact ⟨document, hmem, rfl, hsame, by rw [hplaced]; exact hasked⟩

theorem Attempt.Legal.delivers_iff (h : attempt.Legal world) (hcompleted : attempt.completed = true)
    {document : Document F} (hmem : document ∈ attempt.snapshot.documents) :
    attempt.Delivers document.address.toString
      ↔ document.address.toString ∉ (attempt.restated world).notSent := by
  constructor
  · rintro ⟨arrived, harrived, haddress⟩
    rw [← haddress]
    exact (h.computed harrived).1
  · intro hnot
    have hplaced : (attempt.snapshot.placed world.published.all attempt.because document).1
        ∈ (attempt.restated world).sent := by
      rw [Restated.sent, List.mem_filter]
      refine ⟨?_, ?_⟩
      · rw [Attempt.restated, restated_documents]
        exact List.mem_map_of_mem hmem
      · rw [Snapshot.placed, against_address]
        exact decide_eq_true hnot
    refine ⟨_, h.2 hcompleted _ hplaced, ?_⟩
    rw [Snapshot.placed, against_address]

/-- What a completed run computed is what the table has after it. -/
theorem recordedHash_after (hcompleted : attempt.completed = true) {document : Document F}
    (hmem : document ∈ attempt.snapshot.documents) :
    (world.after ident attempt).recordedHash document.address.toString
      = some document.hash := by
  obtain ⟨other, hother, haddress, hrow⟩ := exists_restated_state world.published.all
    attempt.because attempt.republish ⟨document, hmem, rfl⟩
  rw [World.recordedHash, World.after, if_pos hcompleted, all_record_hash, Attempt.restated, hrow,
    Option.map_some, recorded_hash, Snapshot.placed, against_hash,
    (attempt.agree other hother document hmem (toString_injective haddress)).1]
  rfl

/-- The table has what it had of every other address. -/
theorem recordedHash_after_of_not
    (h : attempt.completed = true → ∀ document ∈ attempt.snapshot.documents,
      document.address.toString ≠ d) :
    (world.after ident attempt).recordedHash d = world.recordedHash d := by
  rw [World.recordedHash, World.after]
  cases hcompleted : attempt.completed with
  | false => rfl
  | true =>
      rw [if_pos rfl, all_record_hash, Attempt.restated, restated_state,
        getElem?_collect_eq_none (h hcompleted)]
      rfl

theorem heldHash_after {document : Document F} (h : attempt.Legal world)
    (hfresh : ∀ (d : String) held, world.relay[d]? = some held →
      held.createdAt < attempt.snapshot.run.createdAt)
    (hmem : document ∈ attempt.arrivals) :
    (world.after ident attempt).heldHash document.address.toString = some document.hash :=
  receive_of_mem hfresh h.agree hmem

theorem heldHash_after_of_not (h : ¬ attempt.Delivers d) :
    (world.after ident attempt).heldHash d = world.heldHash d := by
  have hnone : ∀ document ∈ attempt.arrivals, document.address.toString ≠ d :=
    fun document hmem hd => h ⟨document, hmem, hd⟩
  rw [World.heldHash, World.after, receive_of_not hnone]
  rfl

end Step

/-! ## Whole sequences -/

section Sequence

variable {attempts : List (Attempt F)} {attempt : Attempt F} {d : String}

/-- **A STRAY ADDRESS HEALS WHEN A DOCUMENT IS ACCEPTED UNDER IT**, unless that
    one came from an aborted run and is not the recorded one either. -/
theorem stray_concat :
    Stray ident (attempts ++ [attempt]) d
      ↔ (attempt.Delivers d ∧ attempt.completed = false
          ∧ ∃ document ∈ attempt.arrivals, document.address.toString = d
            ∧ (worldAfter ident attempts).recordedHash d ≠ some document.hash)
        ∨ ¬ attempt.Delivers d ∧ Stray ident attempts d := by
  constructor
  · rintro ⟨before, last, after, hsplit, haborted, harrived, hafter⟩
    rcases List.eq_nil_or_concat after with rfl | ⟨rest, b, rfl⟩
    · obtain ⟨rfl, hlast⟩ := List.append_inj' hsplit rfl
      cases hlast
      obtain ⟨document, hmem, hd, hhash⟩ := harrived
      exact .inl ⟨⟨document, hmem, hd⟩, haborted, document, hmem, hd, hhash⟩
    · rw [List.concat_eq_append] at hsplit hafter
      rw [← List.cons_append, ← List.append_assoc] at hsplit
      obtain ⟨rfl, hlast⟩ := List.append_inj' hsplit rfl
      cases hlast
      exact .inr ⟨hafter attempt (by simp), before, last, rest, rfl, haborted, harrived,
        fun later hlater => hafter later (List.mem_append_left _ hlater)⟩
  · rintro (⟨-, haborted, harrived⟩ | ⟨hnot, before, last, after, rfl, haborted, harrived, hafter⟩)
    · exact ⟨attempts, attempt, [], rfl, haborted, harrived, by simp⟩
    · refine ⟨before, last, after ++ [attempt], by simp, haborted, harrived, ?_⟩
      intro later hlater
      rcases List.mem_append.mp hlater with hlater | hlater
      · exact hafter later hlater
      · rw [List.mem_singleton.mp hlater]
        exact hnot

/-- What the relay holds came from one of the runs. -/
theorem held_createdAt {held : Signed F} (h : (worldAfter ident attempts).relay[d]? = some held) :
    ∃ attempt ∈ attempts, held.createdAt = attempt.snapshot.run.createdAt := by
  induction attempts using List.reverseRecOn with
  | nil =>
      rw [worldAfter, List.foldl_nil, Std.ExtTreeMap.getElem?_empty] at h
      cases h
  | append_singleton attempts attempt ih =>
      rw [worldAfter_concat] at h
      rcases mem_receive h with hold | ⟨document, -, rfl, -⟩
      · obtain ⟨earlier, hmem, hclock⟩ := ih hold
        exact ⟨earlier, List.mem_append_left _ hmem, hclock⟩
      · exact ⟨attempt, by simp, rfl⟩

/-- **THE INVARIANT**: of a recorded address, the relay holds the recorded
    document exactly when the address is not stray. -/
theorem held_iff_not_stray (hlegal : LegalRun ident attempts)
    (hclocks : attempts.Pairwise fun a b =>
      a.snapshot.run.createdAt < b.snapshot.run.createdAt)
    {hash : String} (hrecorded : (worldAfter ident attempts).recordedHash d = some hash) :
    (worldAfter ident attempts).heldHash d = some hash ↔ ¬ Stray ident attempts d := by
  induction attempts using List.reverseRecOn generalizing hash with
  | nil =>
      rw [World.recordedHash, worldAfter, List.foldl_nil, Published.all,
        Std.ExtTreeMap.getElem?_map, Std.ExtTreeMap.getElem?_empty] at hrecorded
      cases hrecorded
  | append_singleton attempts attempt ih =>
      rw [List.pairwise_append] at hclocks
      obtain ⟨hbefore, -, hlater⟩ := hclocks
      have hlast : attempt.Legal (worldAfter ident attempts) := hlegal attempts attempt [] rfl
      have hearlier : LegalRun ident attempts := by
        rintro before earlier after rfl
        exact hlegal before earlier (after ++ [attempt]) (by simp)
      have hfresh : ∀ (d : String) held, (worldAfter ident attempts).relay[d]? = some held →
          held.createdAt < attempt.snapshot.run.createdAt := by
        intro d held hheld
        obtain ⟨earlier, hmem, hclock⟩ := held_createdAt hheld
        rw [hclock]
        exact hlater earlier hmem attempt (by simp)
      rw [worldAfter_concat] at hrecorded ⊢
      rw [stray_concat]
      by_cases hdelivers : attempt.Delivers d
      · obtain ⟨document, hmem, rfl⟩ := hdelivers
        rw [heldHash_after hlast hfresh hmem]
        cases hcompleted : attempt.completed with
        | true =>
            -- What a completed run delivered is what it recorded.
            obtain ⟨-, original, horiginal, haddress, hhash⟩ := hlast.computed hmem
            rw [← haddress, recordedHash_after hcompleted horiginal, hhash] at hrecorded
            simp [hrecorded, show attempt.Delivers document.address.toString from
              ⟨document, hmem, rfl⟩]
        | false =>
            rw [recordedHash_after_of_not (by simp [hcompleted])] at hrecorded
            constructor
            · intro hsame
              rintro (⟨-, -, other, hother, haddress, hne⟩ | ⟨hnot, -⟩)
              · rw [hrecorded, ← hsame, hlast.agree other hother document hmem
                  (toString_injective haddress)] at hne
                exact hne rfl
              · exact hnot ⟨document, hmem, rfl⟩
            · intro hnot
              by_contra hne
              refine hnot (.inl ⟨⟨document, hmem, rfl⟩, rfl, document, hmem, rfl, ?_⟩)
              rw [hrecorded]
              exact fun hsame => hne hsame.symm
      · -- Nothing arrived: a withheld document has the recorded hash already.
        have hold : (worldAfter ident attempts).recordedHash d = some hash := by
          by_cases hcomputed : attempt.completed = true
              ∧ ∃ document ∈ attempt.snapshot.documents, document.address.toString = d
          · obtain ⟨hcompleted, document, hmem, rfl⟩ := hcomputed
            rw [recordedHash_after hcompleted hmem] at hrecorded
            rw [hlast.delivers_iff hcompleted hmem, not_not, mem_notSent_iff hmem] at hdelivers
            rw [hdelivers.1, hrecorded]
          · rw [recordedHash_after_of_not] at hrecorded
            · exact hrecorded
            · intro hcompleted document hmem hd
              exact hcomputed ⟨hcompleted, document, hmem, hd⟩
        rw [heldHash_after_of_not hdelivers, ih hearlier hbefore hold]
        simp [hdelivers]

end Sequence

/-! ## The index -/

/-- The documents of a computed snapshot agree where they share an address. -/
theorem compute_agree {digest : String → String} {A : Stats.Floats F} {data : Stats.Data F}
    {coverage : Coverage} {snapshotId : String} {now : Int} :
    ∀ document ∈ (Snapshot.compute digest A data coverage snapshotId now).documents,
      ∀ other ∈ (Snapshot.compute digest A data coverage snapshotId now).documents,
        document.address = other.address →
          document.hash = other.hash ∧ document.period = other.period := by
  intro document hmem other hother haddress
  constructor
  · obtain ⟨hanswer, hhash⟩ := Snapshot.answer_of_mem hmem
    obtain ⟨hanswer', hhash'⟩ := Snapshot.answer_of_mem hother
    rw [haddress, hanswer'] at hanswer
    rw [hhash, hhash', Option.some.inj hanswer]
  · rw [Snapshot.period_of_mem hmem, Snapshot.period_of_mem hother, haddress]

/-- Whether what an index says of each document is what the relay holds. -/
def Honest (attempt : Attempt F) (before after : World F) (publisher : Publisher) : Prop :=
  ∀ entry ∈ ((attempt.restated before).snapshot.index publisher).documents,
    after.heldHash entry.d = some entry.hash

theorem honest_iff {attempt : Attempt F} {before after : World F} {publisher : Publisher} :
    Honest attempt before after publisher
      ↔ ∀ document ∈ attempt.snapshot.documents,
          after.heldHash document.address.toString = some document.hash := by
  have hentries : ((attempt.restated before).snapshot.index publisher).documents
      = attempt.snapshot.documents.map fun document =>
          entry (attempt.snapshot.placed before.published.all attempt.because document).1 := by
    show (attempt.restated before).snapshot.documents.map entry = _
    rw [Attempt.restated, restated_documents, List.map_map]
    rfl
  rw [Honest, hentries, List.forall_mem_map]
  simp only [entry, Snapshot.placed, against_address, against_hash]

/-- The index is honest in every run that completes exactly when no such run
    withholds a document of a stray address. -/
theorem index_honest_iff (ident : Run → Document F → Nat) (publisher : Publisher)
    (attempts : List (Attempt F)) (hlegal : LegalRun ident attempts)
    (hclocks : attempts.Pairwise fun a b =>
      a.snapshot.run.createdAt < b.snapshot.run.createdAt) :
    (∀ before attempt after, attempts = before ++ attempt :: after →
        attempt.completed = true →
        Honest attempt (worldAfter ident before) (worldAfter ident (before ++ [attempt]))
          publisher)
      ↔ ∀ before attempt after, attempts = before ++ attempt :: after →
          attempt.completed = true →
          ∀ document ∈ attempt.snapshot.documents,
            (worldAfter ident before).recordedHash document.address.toString
                = some document.hash →
            attempt.republish.sendsUnchanged document = false →
              ¬ Stray ident before document.address.toString := by
  have hstep : ∀ before attempt after, attempts = before ++ attempt :: after →
      attempt.completed = true → ∀ document ∈ attempt.snapshot.documents,
        ((worldAfter ident (before ++ [attempt])).heldHash document.address.toString
            = some document.hash
          ↔ ((worldAfter ident before).recordedHash document.address.toString
                = some document.hash →
              attempt.republish.sendsUnchanged document = false →
                ¬ Stray ident before document.address.toString)) := by
    rintro before attempt after rfl hcompleted document hmem
    have hlast : attempt.Legal (worldAfter ident before) := hlegal before attempt after rfl
    have hrun : LegalRun ident (before ++ [attempt]) := by
      intro earlier other rest hsplit
      refine hlegal earlier other (rest ++ after) ?_
      rw [← List.singleton_append, ← List.append_assoc, hsplit]
      simp
    have htimes : (before ++ [attempt]).Pairwise fun a b =>
        a.snapshot.run.createdAt < b.snapshot.run.createdAt := by
      rw [← List.singleton_append, ← List.append_assoc] at hclocks
      exact (List.pairwise_append.mp hclocks).1
    have hrecorded : (worldAfter ident (before ++ [attempt])).recordedHash
        document.address.toString = some document.hash := by
      rw [worldAfter_concat]
      exact recordedHash_after hcompleted hmem
    -- An attempt strays where the one before did and it sends nothing to mend it.
    rw [held_iff_not_stray hrun htimes hrecorded, stray_concat, hlast.delivers_iff hcompleted hmem,
      mem_notSent_iff hmem]
    simp [hcompleted]
  constructor
  · intro h before attempt after hsplit hcompleted document hmem
    exact (hstep before attempt after hsplit hcompleted document hmem).mp
      (honest_iff.mp (h before attempt after hsplit hcompleted) document hmem)
  · intro h before attempt after hsplit hcompleted
    refine honest_iff.mpr fun document hmem => ?_
    exact (hstep before attempt after hsplit hcompleted document hmem).mpr
      (h before attempt after hsplit hcompleted document hmem)

/-! ## One document, three runs -/

theorem LegalRun.concat {ident : Run → Document F → Nat} {attempts : List (Attempt F)}
    {attempt : Attempt F} (h : LegalRun ident attempts)
    (hlast : attempt.Legal (worldAfter ident attempts)) :
    LegalRun ident (attempts ++ [attempt]) := by
  intro before other after hsplit
  rcases List.eq_nil_or_concat after with rfl | ⟨rest, b, rfl⟩
  · obtain ⟨rfl, hother⟩ := List.append_inj' hsplit rfl
    cases hother
    exact hlast
  · rw [List.concat_eq_append, ← List.cons_append, ← List.append_assoc] at hsplit
    obtain ⟨rfl, -⟩ := List.append_inj' hsplit rfl
    exact h before other rest rfl

/-- The run of one document: what it may deliver. -/
theorem legal_one {attempt : Attempt F} {world : World F} {document : Document F}
    (hdocuments : attempt.snapshot.documents = [document])
    (harrivals : attempt.arrivals
      = if world.recordedHash document.address.toString = some document.hash
          ∧ attempt.republish.sendsUnchanged document = false then []
        else [(attempt.snapshot.placed world.published.all attempt.because document).1]) :
    attempt.Legal world := by
  have hmem : document ∈ attempt.snapshot.documents := by simp [hdocuments]
  have hsent : (attempt.restated world).sent = attempt.arrivals := by
    rw [harrivals, Restated.sent, Attempt.restated, restated_documents, hdocuments,
      List.map_cons, List.map_nil]
    by_cases hwithheld : world.recordedHash document.address.toString = some document.hash
        ∧ attempt.republish.sendsUnchanged document = false
    · have hnot := mem_notSent_iff hmem |>.mpr hwithheld
      rw [Attempt.restated] at hnot
      rw [if_pos hwithheld, List.filter_cons_of_neg, List.filter_nil]
      simpa [Snapshot.placed] using hnot
    · have hnot := fun h => hwithheld ((mem_notSent_iff hmem).mp h)
      rw [Attempt.restated] at hnot
      rw [if_neg hwithheld, List.filter_cons_of_pos, List.filter_nil]
      simpa [Snapshot.placed] using hnot
  exact ⟨fun _ h => hsent ▸ h, fun _ _ h => hsent ▸ h⟩

/-- The orders of the whole archive, hashing to `hash`. -/
def page (hash : String) (clock : Int) : Document Int :=
  ⟨.window .orders .all none, .first ⟨toString clock, clock⟩ (.window ⟨⟨"", ""⟩, []⟩), hash, clock,
    none⟩

/-- A run that computes that page alone. -/
def pageRun (hash : String) (clock : Int) (completed : Bool) (arrivals : List (Document Int)) :
    Attempt Int where
  snapshot := ⟨⟨toString clock, clock⟩, .between 0 0, [page hash clock]⟩
  because := .rebuild
  republish := .no
  arrivals := arrivals
  completed := completed
  agree := by simp

/-- The page is published; changes, and reaches the relay in a run that aborts. -/
def interrupted : List (Attempt Int) :=
  [pageRun "a" 1 true [page "a" 1],
    pageRun "b" 2 false [(Previous.next 2 "b" .rebuild (some (.first "a" 1))).publish ⟨"2", 2⟩
      (page "b" 2)]]

theorem interrupted_legal : LegalRun (fun _ _ => 0) interrupted := by
  have hnil : LegalRun (fun _ _ => 0) ([] : List (Attempt Int)) := by
    intro before attempt after h
    exact absurd h (by simp)
  refine (hnil.concat (legal_one rfl ?_)).concat (legal_one rfl ?_)
  · rw [if_neg (by decide +kernel)]
    rfl
  · rw [if_neg (by decide +kernel), Snapshot.placed, against_eq]
    have hprevious : (worldAfter (fun _ _ => 0) [pageRun "a" 1 true [page "a" 1]]).published.all[
        (page "b" 2).address.toString]? = some (.first "a" 1) := by decide +kernel
    show _ = [(Previous.next 2 "b" .rebuild _).publish ⟨"2", 2⟩ (page "b" 2)]
    rw [List.nil_append, hprevious]
    rfl

/-- Its figures revert: the next run withholds it, completes, and its index says
    `a` where the relay holds `b`. -/
theorem reverted_not_honest :
    LegalRun (fun _ _ => 0) (interrupted ++ [pageRun "a" 3 true []])
      ∧ (interrupted ++ [pageRun "a" 3 true []]).Pairwise (fun a b =>
        a.snapshot.run.generatedAt < b.snapshot.run.generatedAt)
      ∧ (pageRun "a" 3 true []).completed = true
      ∧ ¬ Honest (pageRun "a" 3 true []) (worldAfter (fun _ _ => 0) interrupted)
        (worldAfter (fun _ _ => 0) (interrupted ++ [pageRun "a" 3 true []])) ⟨"", ""⟩ := by
  refine ⟨interrupted_legal.concat (legal_one rfl ?_), by simp [interrupted, pageRun], rfl, ?_⟩
  · rw [if_pos ⟨by decide +kernel, rfl⟩]
    rfl
  · intro h
    have hheld := honest_iff.mp h (page "a" 3) (by simp [pageRun])
    have hb : (worldAfter (fun _ _ => 0) (interrupted ++ [pageRun "a" 3 true []])).heldHash
        (page "a" 3).address.toString = some "b" := by decide +kernel
    rw [hb] at hheld
    exact absurd hheld (by decide)

/-- Had the figures stayed at `b`, the next run would have sent them. -/
theorem stayed_honest :
    LegalRun (fun _ _ => 0) (interrupted ++ [pageRun "b" 3 true
        [(Previous.next 3 "b" .rebuild (some (.first "a" 1))).publish ⟨"3", 3⟩ (page "b" 3)]])
      ∧ ∀ before attempt after, interrupted ++ [pageRun "b" 3 true
          [(Previous.next 3 "b" .rebuild (some (.first "a" 1))).publish ⟨"3", 3⟩ (page "b" 3)]]
            = before ++ attempt :: after → attempt.completed = true →
        Honest attempt (worldAfter (fun _ _ => 0) before)
          (worldAfter (fun _ _ => 0) (before ++ [attempt])) ⟨"", ""⟩ := by
  have hlegal : LegalRun (fun _ _ => 0) (interrupted ++ [pageRun "b" 3 true
      [(Previous.next 3 "b" .rebuild (some (.first "a" 1))).publish ⟨"3", 3⟩ (page "b" 3)]]) := by
    refine interrupted_legal.concat (legal_one rfl ?_)
    rw [if_neg (by decide +kernel), Snapshot.placed, against_eq]
    have hprevious : (worldAfter (fun _ _ => 0) interrupted).published.all[
        (page "b" 3).address.toString]? = some (.first "a" 1) := by decide +kernel
    show _ = [(Previous.next 3 "b" .rebuild _).publish ⟨"3", 3⟩ (page "b" 3)]
    rw [hprevious]
    rfl
  refine ⟨hlegal, (index_honest_iff (fun _ _ => 0) ⟨"", ""⟩ _ hlegal
    (by simp [interrupted, pageRun, Run.createdAt])).mpr ?_⟩
  intro before attempt after hsplit hcompleted document hmem hrecorded
  -- The first run found nothing recorded, the second did not complete, and the
  -- third found `a`.
  rcases before with _ | ⟨first, _ | ⟨second, _ | ⟨third, before⟩⟩⟩
  · simp only [interrupted, List.nil_append, List.cons_append, List.cons.injEq] at hsplit
    obtain ⟨rfl, -⟩ := hsplit
    rw [List.mem_singleton.mp hmem] at hrecorded
    exact absurd hrecorded (by decide +kernel)
  · simp only [interrupted, List.nil_append, List.cons_append, List.cons.injEq] at hsplit
    obtain ⟨-, rfl, -⟩ := hsplit
    exact absurd hcompleted (by decide)
  · simp only [interrupted, List.nil_append, List.cons_append, List.cons.injEq] at hsplit
    obtain ⟨rfl, rfl, rfl, -⟩ := hsplit
    rw [List.mem_singleton.mp hmem] at hrecorded
    exact absurd hrecorded (by decide +kernel)
  · simp [interrupted] at hsplit

end Publish
