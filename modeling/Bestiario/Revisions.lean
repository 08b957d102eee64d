import Bestiario.Restatement

/-! # Revision histories

    What `published_documents` says of an address after any number of completed
    runs: how often its hash changed, when it last did, and why.  A run reads
    the table, places its snapshot against it, and writes back what it
    concluded (`Published.complete`); an address it does not compute keeps its
    row.

    The history of an address is the list of its COMPUTATIONS.  `Recorded` says
    what a record must be over such a list, and one computation more takes it
    to the next (`Recorded.next`). -/

namespace Publish

open Keyed
open Stats (rfc3339)

variable {F : Type}

/-! ## Runs -/

/-- A run whose documents all reached a relay, and its index after them. -/
structure Completed (F : Type) where
  snapshot : Snapshot F
  because : Because
  republish : Republish
  distinct : (snapshot.documents.map Document.address).Nodup
  dated : Timestamp.FourDigit snapshot.run.generatedAt

namespace Completed

/-- The snapshot of a run placed against the table. -/
def restated (run : Completed F) (published : Published) : Restated F :=
  run.snapshot.restated published.all run.because run.republish

end Completed

/-- A completed run leaves its conclusions behind. -/
def Published.complete (published : Published) (run : Completed F) : Published :=
  published.record (run.restated published).state

/-- The table after a sequence of completed runs, the first over an empty one. -/
def publications (runs : List (Completed F)) : Published := runs.foldl Published.complete ∅

theorem publications_concat (runs : List (Completed F)) (run : Completed F) :
    publications (runs ++ [run]) = (publications runs).complete run := by
  rw [publications, List.foldl_append]
  rfl

/-! ## Computations -/

/-- One computation of an address. -/
structure Computation where
  clock : Int
  hash : String
  because : Because
  deriving DecidableEq

/-- What a run computes at `d`, if it computes it. -/
def Completed.computation (run : Completed F) (d : String) : Option Computation :=
  (run.snapshot.documents.find? fun document => document.address.toString == d).map
    fun document => ⟨run.snapshot.run.generatedAt, document.hash, run.because⟩

/-- The computations of an address, run by run. -/
def computations (runs : List (Completed F)) (d : String) : List Computation :=
  runs.filterMap fun run => run.computation d

/-- The consecutive computations whose hash differs. -/
def changes (history : List Computation) : Nat :=
  (history.zip history.tail).countP fun pair => pair.1.hash ≠ pair.2.hash

/-- The computation that last moved the figures: it was the first, or changed
    the hash, and none after it did. -/
def LastMove (history : List Computation) (c : Computation) : Prop :=
  ∃ before after, history = before ++ c :: after
    ∧ (∀ b, before.getLast? = some b → b.hash ≠ c.hash)
    ∧ ∀ a ∈ after, a.hash = c.hash

theorem changes_concat (history : List Computation) (b c : Computation) :
    changes (history ++ [b] ++ [c])
      = changes (history ++ [b]) + if b.hash ≠ c.hash then 1 else 0 := by
  induction history with
  | nil => simp [changes, List.countP_cons]
  | cons a rest ih =>
      cases rest with
      | nil => simp [changes, List.countP_cons, Nat.add_comm]
      | cons a' rest =>
          have hcons : ∀ tail : List Computation, changes (a :: a' :: tail)
              = (if a.hash ≠ a'.hash then 1 else 0) + changes (a' :: tail) := by
            intro tail
            simp [changes, List.countP_cons, Nat.add_comm]
          have hstep := ih
          simp only [List.cons_append] at hstep ⊢
          rw [hcons, hcons, hstep, Nat.add_assoc]

theorem LastMove.hash {history : List Computation} {c : Computation} (h : LastMove history c) :
    history.getLast?.map Computation.hash = some c.hash := by
  obtain ⟨before, after, rfl, -, hafter⟩ := h
  cases hlast : after.getLast? with
  | none =>
      rw [List.getLast?_eq_none_iff.mp hlast]
      simp
  | some a =>
      have ha := hafter a (List.mem_of_getLast? hlast)
      rw [List.getLast?_append, List.getLast?_cons, hlast]
      simp [ha]

/-! ## What a record must be -/

/-- **WHAT IS RECORDED OF A HISTORY.** -/
structure Recorded (history : List Computation) (previous : Previous) : Prop where
  hash : history.getLast?.map Computation.hash = some previous.hash
  revision : previous.revision = 1 + changes history
  moved : ∃ c, LastMove history c ∧ previous.updatedAt = c.clock
    ∧ previous.restatement
      = if changes history = 0 then none else some ⟨c.clock, c.because.asStr⟩

/-- The first computation is recorded as a first publication. -/
theorem Recorded.one (c : Computation) :
    Recorded [c] (Previous.next c.clock c.hash c.because none) where
  hash := rfl
  revision := rfl
  moved := ⟨c, ⟨[], [], rfl, by simp, by simp⟩, rfl, rfl⟩

/-- One computation more takes a record to the next. -/
theorem Recorded.next {history : List Computation} {previous : Previous}
    (h : Recorded history previous) (c : Computation)
    (hchanges : changes (history ++ [c]) < 2 ^ 32 - 1) :
    Recorded (history ++ [c]) (Previous.next c.clock c.hash c.because (some previous)) := by
  obtain ⟨earlier, b, rfl⟩ : ∃ earlier b, history = earlier ++ [b] := by
    rcases List.eq_nil_or_concat history with rfl | ⟨earlier, b, rfl⟩
    · have hnone := h.hash
      simp at hnone
    · exact ⟨earlier, b, by simp⟩
  have hb : b.hash = previous.hash := by simpa using h.hash
  obtain ⟨m, hmove, hclock, hrestatement⟩ := h.moved
  have hm : m.hash = b.hash := by simpa using hmove.hash.symm
  by_cases hsame : previous.hash = c.hash
  · -- Nothing moved: the record stands, and so does the last move.
    have hsame' : changes (earlier ++ [b] ++ [c]) = changes (earlier ++ [b]) := by
      rw [changes_concat, if_neg (by simp [hb, hsame]), Nat.add_zero]
    rw [Previous.next_of_eq hsame]
    refine ⟨by simp [hsame], by rw [hsame', h.revision], m, ?_, hclock,
      by rw [hsame', hrestatement]⟩
    obtain ⟨before, after, hsplit, hbefore, hafter⟩ := hmove
    refine ⟨before, after ++ [c], by simp [hsplit], hbefore, ?_⟩
    intro a ha
    rcases List.mem_append.mp ha with ha | ha
    · exact hafter a ha
    · rw [List.mem_singleton.mp ha, hm, hb, hsame]
  · have hmoved : changes (earlier ++ [b] ++ [c]) = changes (earlier ++ [b]) + 1 := by
      rw [changes_concat, if_pos (by rw [hb]; exact hsame)]
    rw [Previous.next_of_ne hsame]
    refine ⟨by simp [Previous.hash], ?_, c, ?_, rfl, ?_⟩
    · show nextRevision previous.revision = _
      rw [nextRevision, h.revision, hmoved]
      omega
    · refine ⟨earlier ++ [b], [], by simp, ?_, by simp⟩
      intro last hlast
      have : b = last := by simpa using hlast
      rw [← this, hb]
      exact hsame
    · rw [hmoved, if_neg (Nat.succ_ne_zero _)]
      rfl

/-! ## The table, run by run -/

namespace Completed

variable {run : Completed F} {published : Published} {d : String}

theorem computation_eq_none :
    run.computation d = none
      ↔ ∀ document ∈ run.snapshot.documents, document.address.toString ≠ d := by
  rw [computation, Option.map_eq_none_iff, List.find?_eq_none]
  simp

theorem mem_of_computation {c : Computation} (h : run.computation d = some c) :
    ∃ document ∈ run.snapshot.documents, document.address.toString = d
      ∧ c = ⟨run.snapshot.run.generatedAt, document.hash, run.because⟩ := by
  obtain ⟨document, hfind, rfl⟩ := Option.map_eq_some_iff.mp h
  have haddress : document.address.toString = d := by simpa using List.find?_some hfind
  exact ⟨document, List.mem_of_find?_eq_some hfind, haddress, rfl⟩

/-- A run has one document of an address. -/
theorem document_unique {document document' : Document F}
    (h : document ∈ run.snapshot.documents) (h' : document' ∈ run.snapshot.documents)
    (haddress : document.address.toString = document'.address.toString) :
    document = document' :=
  List.inj_on_of_nodup_map run.distinct h h' (toString_injective haddress)

theorem computation_of_mem {document : Document F} (h : document ∈ run.snapshot.documents) :
    run.computation document.address.toString
      = some ⟨run.snapshot.run.generatedAt, document.hash, run.because⟩ := by
  cases hfind : run.computation document.address.toString with
  | none => exact absurd rfl (computation_eq_none.mp hfind document h)
  | some c =>
      obtain ⟨document', h', haddress, rfl⟩ := mem_of_computation hfind
      rw [document_unique h' h haddress]

/-- What a run concludes about an address is the next record of it. -/
theorem state_lookup (hdated : ∀ p, published.all[d]? = some p → p.Dated) :
    (run.restated published).state[d]?
      = (run.computation d).map fun c =>
          Previous.next c.clock c.hash c.because published.all[d]? := by
  cases hcomputed : run.computation d with
  | none =>
      rw [restated, restated_state]
      exact getElem?_collect_eq_none (computation_eq_none.mp hcomputed)
  | some c =>
      obtain ⟨document, hmem, rfl, rfl⟩ := mem_of_computation hcomputed
      obtain ⟨document', hmem', haddress, hrow⟩ := exists_restated_state published.all
        run.because run.republish ⟨document, hmem, rfl⟩
      rw [document_unique hmem' hmem haddress] at hrow
      rw [restated, hrow, Snapshot.placed, recorded_against run.dated hdated]
      rfl

/-- **ONE RUN MORE**: the next record where the run computed the address, the
    old one where it did not. -/
theorem complete_lookup (hdated : ∀ p, published.all[d]? = some p → p.Dated)
    (hrevision : ∀ c, run.computation d = some c →
      (Previous.next c.clock c.hash c.because published.all[d]?).revision < 2 ^ 32) :
    (published.complete run).all[d]?
      = ((run.computation d).map fun c =>
          Previous.next c.clock c.hash c.because published.all[d]?).or published.all[d]? := by
  rw [Published.complete, all_record, state_lookup hdated]
  cases hcomputed : run.computation d with
  | none => rfl
  | some c => simp [previous_row (hrevision c hcomputed)]

end Completed

/-! ## Whole sequences -/

theorem computations_concat (runs : List (Completed F)) (run : Completed F) (d : String) :
    computations (runs ++ [run]) d = computations runs d ++ (run.computation d).toList := by
  rw [computations, List.filterMap_append]
  cases h : run.computation d with
  | none => simp [computations, h]
  | some c => simp [computations, h]

theorem changes_le_concat (history more : List Computation) :
    changes history ≤ changes (history ++ more) := by
  induction more using List.reverseRecOn with
  | nil => rw [List.append_nil]
  | append_singleton more c ih =>
      refine le_trans ih ?_
      rw [← List.append_assoc]
      rcases List.eq_nil_or_concat (history ++ more) with hnil | ⟨earlier, b, heq⟩
      · rw [hnil]
        exact Nat.zero_le _
      · rw [heq, List.concat_eq_append, changes_concat]
        exact Nat.le_add_right _ _

/-- The table and the history of an address agree. -/
def RecordedAt (runs : List (Completed F)) (d : String) : Prop :=
  (computations runs d = [] ∧ (publications runs).all[d]? = none)
    ∨ ∃ previous, (publications runs).all[d]? = some previous
        ∧ Recorded (computations runs d) previous ∧ previous.Dated

theorem RecordedAt.dated {runs : List (Completed F)} {d : String} (h : RecordedAt runs d) :
    ∀ p, (publications runs).all[d]? = some p → p.Dated := by
  intro p hp
  rcases h with ⟨-, hnone⟩ | ⟨previous, hprevious, -, hd⟩
  · rw [hnone] at hp
    cases hp
  · rw [hprevious] at hp
    cases hp
    exact hd

/-- A run that computes an address records the next of it. -/
theorem RecordedAt.next {runs : List (Completed F)} {run : Completed F} {d : String}
    {c : Computation} (h : RecordedAt runs d) (hcomputed : run.computation d = some c)
    (hchanges : changes (computations runs d ++ [c]) < 2 ^ 32 - 1) :
    Recorded (computations runs d ++ [c])
        (Previous.next c.clock c.hash c.because (publications runs).all[d]?)
      ∧ (publications (runs ++ [run])).all[d]?
        = some (Previous.next c.clock c.hash c.because (publications runs).all[d]?) := by
  have hnext : Recorded (computations runs d ++ [c])
      (Previous.next c.clock c.hash c.because (publications runs).all[d]?) := by
    rcases h with ⟨hnil, hnone⟩ | ⟨previous, hprevious, hrecorded, -⟩
    · rw [hnil, hnone]
      exact .one c
    · rw [hprevious]
      exact hrecorded.next c hchanges
  refine ⟨hnext, ?_⟩
  rw [publications_concat, Completed.complete_lookup h.dated, hcomputed]
  · rfl
  · intro c' hc'
    rw [hcomputed] at hc'
    cases hc'
    rw [hnext.revision]
    omega

/-- **THE TABLE IS EXACT**: no record of what was never computed, and the record
    its history calls for of everything else. -/
theorem publications_recorded {d : String} (runs : List (Completed F))
    (hchanges : changes (computations runs d) < 2 ^ 32 - 1) : RecordedAt runs d := by
  induction runs using List.reverseRecOn with
  | nil =>
      refine .inl ⟨rfl, ?_⟩
      rw [publications, List.foldl_nil, Published.all, Std.ExtTreeMap.getElem?_map,
        Std.ExtTreeMap.getElem?_empty]
      rfl
  | append_singleton runs run ih =>
      rw [computations_concat] at hchanges
      have hbefore := ih (lt_of_le_of_lt (changes_le_concat _ _) hchanges)
      rw [RecordedAt, computations_concat]
      cases hcomputed : run.computation d with
      | none =>
          rw [publications_concat, Completed.complete_lookup hbefore.dated (by simp [hcomputed]),
            hcomputed]
          simpa [RecordedAt] using hbefore
      | some c =>
          rw [hcomputed, Option.toList_some] at hchanges
          have hclock : Timestamp.FourDigit c.clock := by
            obtain ⟨document, -, -, rfl⟩ := Completed.mem_of_computation hcomputed
            exact run.dated
          obtain ⟨hnext, hlookup⟩ := hbefore.next hcomputed hchanges
          exact .inr ⟨_, hlookup, hnext, Previous.next_dated hclock hbefore.dated⟩

theorem changes_before {before after : List (Completed F)} {d : String} {bound : Nat}
    (h : changes (computations (before ++ after) d) < bound) :
    changes (computations before d) < bound := by
  rw [computations, List.filterMap_append] at h
  exact lt_of_le_of_lt (changes_le_concat _ _) h

/-- The recorded hash of an address is that of its last computation. -/
theorem publications_hash {d : String} {runs : List (Completed F)}
    (hchanges : changes (computations runs d) < 2 ^ 32 - 1) :
    (publications runs).all[d]?.map Previous.hash
      = (computations runs d).getLast?.map Computation.hash := by
  rcases publications_recorded runs hchanges with ⟨hnil, hnone⟩ | ⟨previous, hprevious, h, -⟩
  · rw [hnil, hnone]
    rfl
  · rw [hprevious, h.hash]
    rfl

/-- An address a run does not compute keeps its record. -/
theorem publications_untouched {d : String} {runs : List (Completed F)} {run : Completed F}
    (hchanges : changes (computations runs d) < 2 ^ 32 - 1)
    (h : run.computation d = none) :
    (publications (runs ++ [run])).all[d]? = (publications runs).all[d]? := by
  rw [publications_concat, 
    Completed.complete_lookup (publications_recorded runs hchanges).dated, h]
  · rfl
  · intro c hc
    rw [h] at hc
    cases hc

/-- **WHAT IS NOT SENT IS UNCHANGED** since its last computation. -/
theorem notSent_unchanged {d : String} {runs : List (Completed F)} {run : Completed F}
    (hchanges : changes (computations runs d) < 2 ^ 32 - 1)
    (h : d ∈ (run.restated (publications runs)).notSent) :
    ∃ c, run.computation d = some c
      ∧ (computations runs d).getLast?.map Computation.hash = some c.hash := by
  obtain ⟨document, hmem, rfl, hhash, -⟩ := mem_notSent.mp h
  refine ⟨_, Completed.computation_of_mem hmem, ?_⟩
  rw [← publications_hash hchanges]
  exact hhash

/-- **EVERY NEW OR CHANGED DOCUMENT IS SENT.** -/
theorem sent_of_moved {runs : List (Completed F)} {run : Completed F} {document : Document F}
    (hchanges : changes (computations runs document.address.toString) < 2 ^ 32 - 1)
    (hmem : document ∈ (run.restated (publications runs)).snapshot.documents)
    (h : (computations runs document.address.toString).getLast?.map Computation.hash
      ≠ some document.hash) :
    document ∈ (run.restated (publications runs)).sent := by
  rw [Restated.sent, List.mem_filter]
  refine ⟨hmem, decide_eq_true fun hnot => ?_⟩
  obtain ⟨c, hcomputed, hlast⟩ := notSent_unchanged hchanges hnot
  rw [Completed.restated, restated_documents] at hmem
  obtain ⟨original, horiginal, rfl⟩ := List.mem_map.mp hmem
  rw [Snapshot.placed, against_address, Completed.computation_of_mem horiginal] at hcomputed
  cases hcomputed
  rw [Snapshot.placed, against_hash] at h
  exact h hlast

/-- **THE INDEX LISTS WHAT IS RECORDED**, document by document. -/
theorem index_recorded {runs : List (Completed F)} {run : Completed F} {publisher : Publisher}
    {entry : Entry} (hchanges : ∀ d, changes (computations (runs ++ [run]) d) < 2 ^ 32 - 1)
    (h : entry ∈ ((run.restated (publications runs)).snapshot.index publisher).documents) :
    ∃ previous, (publications (runs ++ [run])).all[entry.d]? = some previous
      ∧ entry = previous.entry entry.d := by
  have hentries : ((run.restated (publications runs)).snapshot.index publisher).documents
      = run.snapshot.documents.map fun document =>
          (Previous.next run.snapshot.run.generatedAt document.hash run.because
            (publications runs).all[document.address.toString]?).entry
              document.address.toString := by
    show (run.restated (publications runs)).snapshot.documents.map Publish.entry = _
    rw [Completed.restated, restated_documents, List.map_map]
    refine List.map_congr_left fun document _ => ?_
    show Publish.entry (run.snapshot.placed (publications runs).all run.because document).1 = _
    rw [Snapshot.placed, against_eq, entry_publish (Previous.next_hash _)]
  rw [hentries] at h
  obtain ⟨document, hmem, rfl⟩ := List.mem_map.mp h
  have hcomputed := Completed.computation_of_mem hmem
  have hmore := hchanges document.address.toString
  rw [computations_concat, hcomputed] at hmore
  have hbefore := publications_recorded runs (lt_of_le_of_lt (changes_le_concat _ _) hmore)
  exact ⟨_, (hbefore.next hcomputed hmore).2, rfl⟩

theorem index_lists (run : Completed F) (published : Published) (publisher : Publisher) :
    ((run.restated published).snapshot.index publisher).documents.map Entry.d
      = run.snapshot.documents.map fun document => document.address.toString := by
  show ((run.restated published).snapshot.documents.map Publish.entry).map Entry.d = _
  rw [Completed.restated, restated_documents, List.map_map, List.map_map]
  refine List.map_congr_left fun document _ => ?_
  show (run.snapshot.placed published.all run.because document).1.address.toString = _
  rw [Snapshot.placed, against_address]

theorem Completed.nodup (run : Completed F) :
    (run.snapshot.documents.map fun document => document.address.toString).Nodup := by
  have hcompose : (run.snapshot.documents.map fun document => document.address.toString)
      = (run.snapshot.documents.map Document.address).map Address.toString := by
    rw [List.map_map]
    rfl
  rw [hcompose]
  exact run.distinct.map fun _ _ => toString_injective

theorem changes_le_runs (runs : List (Completed F)) (d : String) :
    changes (computations runs d) ≤ runs.length := by
  have hpairs : changes (computations runs d) ≤ (computations runs d).length := by
    refine le_trans List.countP_le_length ?_
    rw [List.length_zip]
    exact min_le_left _ _
  exact le_trans hpairs (List.length_filterMap_le _ _)

/-- Revision histories are exact over whole sequences of completed runs. -/
theorem revisions_exact (runs : List (Completed F))
    (hchanges : ∀ d, changes (computations runs d) < 2 ^ 32 - 1) :
    (∀ d : String, (computations runs d = [] → (publications runs).all[d]? = none)
      ∧ (computations runs d ≠ [] → ∃ previous,
          (publications runs).all[d]? = some previous
          ∧ previous.revision = 1 + changes (computations runs d)
          ∧ (previous.restatement.isSome ↔ 1 < previous.revision)
          ∧ ∃ c, LastMove (computations runs d) c ∧ previous.updatedAt = c.clock
            ∧ ∀ restatement, previous.restatement = some restatement →
                restatement = ⟨c.clock, c.because.asStr⟩))
      ∧ ∀ (before : List (Completed F)) (run : Completed F) (after : List (Completed F)),
        runs = before ++ run :: after →
        (∀ d : String, run.computation d = none →
          (publications (before ++ [run])).all[d]? = (publications before).all[d]?)
        ∧ (∀ d ∈ (run.restated (publications before)).notSent,
          ∃ c, run.computation d = some c
            ∧ (computations before d).getLast?.map Computation.hash = some c.hash)
        ∧ (∀ document ∈ (run.restated (publications before)).snapshot.documents,
          (computations before document.address.toString).getLast?.map Computation.hash
              ≠ some document.hash →
            document ∈ (run.restated (publications before)).sent)
        ∧ ∀ publisher : Publisher,
          (∀ republish : Republish,
            (run.snapshot.restated (publications before).all run.because republish).state
                = (run.restated (publications before)).state
              ∧ (run.snapshot.restated (publications before).all run.because
                  republish).snapshot.index publisher
                = (run.restated (publications before)).snapshot.index publisher)
          ∧ ((run.restated (publications before)).snapshot.index publisher).documents.map Entry.d
            = run.snapshot.documents.map (fun document => document.address.toString)
          ∧ (run.snapshot.documents.map fun document => document.address.toString).Nodup
          ∧ ∀ entry ∈ ((run.restated (publications before)).snapshot.index publisher).documents,
            ∃ previous, (publications (before ++ [run])).all[entry.d]? = some previous
              ∧ entry = previous.entry entry.d := by
  refine ⟨?_, ?_⟩
  · intro d
    rcases publications_recorded runs (hchanges d) with ⟨hnil, hnone⟩ |
      ⟨previous, hprevious, hrecorded, -⟩
    · exact ⟨fun _ => hnone, fun hne => absurd hnil hne⟩
    · refine ⟨fun hnil => ?_, fun _ => ?_⟩
      · have hhash := hrecorded.hash
        rw [hnil] at hhash
        cases hhash
      · obtain ⟨c, hmove, hclock, hrestatement⟩ := hrecorded.moved
        have hrevision := hrecorded.revision
        refine ⟨previous, hprevious, hrevision, ?_, c, hmove, hclock, ?_⟩
        · rw [hrestatement, hrevision]
          by_cases hzero : changes (computations runs d) = 0
          · simp [hzero]
          · simp only [if_neg hzero, Option.isSome_some, true_iff]
            omega
        · intro restatement hsome
          rw [hrestatement] at hsome
          split at hsome
          · cases hsome
          · exact (Option.some.inj hsome).symm
  · rintro before run after rfl
    -- A prefix of the history has changed no more often than the whole.
    have hsplit : ∀ d, changes (computations (before ++ [run]) d) < 2 ^ 32 - 1 := by
      intro d
      have hd := hchanges d
      rw [← List.singleton_append, ← List.append_assoc] at hd
      exact changes_before hd
    have hbefore : ∀ d, changes (computations before d) < 2 ^ 32 - 1 :=
      fun d => changes_before (hchanges d)
    refine ⟨fun d => publications_untouched (hbefore d), fun d => notSent_unchanged (hbefore d),
      fun document hmem => sent_of_moved (hbefore _) hmem, fun publisher => ⟨?_, ?_, ?_, ?_⟩⟩
    · intro republish
      obtain ⟨hsnapshot, hstate⟩ := restated_republish run.snapshot (publications before).all
        run.because republish run.republish
      exact ⟨hstate, by rw [hsnapshot]; rfl⟩
    · exact index_lists run (publications before) publisher
    · exact run.nodup
    · exact fun entry hentry => index_recorded hsplit hentry

/-- A run of one document whose payload hashes to `hash`. -/
def oneDocument (hash : String) (clock : Int) (dated : Timestamp.FourDigit clock) :
    Completed Int where
  snapshot :=
    { run := ⟨"1", clock⟩
      coverage := .between 0 0
      documents := [⟨.window .orders .all none, .first ⟨"1", clock⟩ (.window ⟨⟨"", ""⟩, []⟩), hash,
        clock, none⟩] }
  because := .rebuild
  republish := .no
  distinct := List.nodup_singleton _
  dated := dated

/-- Two figures, one after the other: a second revision, of the second run. -/
theorem oneDocument_revised :
    (∀ d, changes (computations
      [oneDocument "a" 0 (by decide), oneDocument "b" 86400 (by decide)] d) < 2 ^ 32 - 1)
    ∧ ∃ previous, (publications
        [oneDocument "a" 0 (by decide), oneDocument "b" 86400 (by decide)]).all["orders:all"]?
          = some previous ∧ previous.revision = 2 := by
  have hbound : ∀ d, changes (computations
      [oneDocument "a" 0 (by decide), oneDocument "b" 86400 (by decide)] d) < 2 ^ 32 - 1 :=
    fun d => lt_of_le_of_lt (changes_le_runs _ d) (by decide)
  have hhistory : computations
      [oneDocument "a" 0 (by decide), oneDocument "b" 86400 (by decide)] "orders:all"
      = [⟨0, "a", .rebuild⟩, ⟨86400, "b", .rebuild⟩] := by decide +kernel
  obtain ⟨previous, hprevious, hrevision, -⟩ :=
    ((revisions_exact _ hbound).1 "orders:all").2 (by rw [hhistory]; simp)
  refine ⟨hbound, previous, hprevious, ?_⟩
  rw [hrevision, hhistory]
  decide

end Publish
