import Bestiario.Absence
import Bestiario.Publishing

/-! # What the publishing runs of a lifetime promise

    The runs of `publish` one after another, over one ledger: whatever the archive has
    become in between, whatever the clock says, whoever answers.

    * `clocks_advance`: the runs that were recorded have strictly later clocks each,
      the table holds exactly them, and the last is the one read back.
    * `index_promises`: an index goes out last, and every document it names was taken
      by a relay — now, or in an earlier run and as it is named.
    * `oversized_never_sent`: nothing over a stated limit is handed to anyone.
    * `unhindered_publishes`: a run nothing stands in the way of does publish. -/

namespace Publish

open Keyed
open Stats (rfc3339 Floats)
open Wire (bind_eq_ok)

variable {F : Type} {digest : String → String} {A : Floats F}

/-! ## One run -/

section Prepare

variable {W : Surroundings F} {ledger : Ledger} {command : Command}

/-- What has passed every refusal. -/
structure Prepared (digest : String → String) (A : Floats F) (W : Surroundings F)
    (ledger : Ledger) (command : Command) (publication : Publication F)
    (keys : Option Keys) : Prop where
  computed : ∃ republish, requested command = .ok republish
    ∧ publication = compute digest A W ledger republish command.now
  fits : Measured.over publication.measured publication.ceiling = []
  clock : keys.isSome = true →
    ∀ last, ledger.latestRun = some last → last.generatedAt < command.now

theorem prepared {publication : Publication F} {keys : Option Keys}
    (h : prepare digest A W ledger command = .ok (publication, keys)) :
    Prepared digest A W ledger command publication keys := by
  rw [prepare] at h
  simp only [bind_eq_ok] at h
  obtain ⟨_, _, asked, _, _, _, _, hclock, republish, hrequested, _, hfits, _, _, hdone⟩ := h
  cases hdone
  refine ⟨⟨republish, hrequested, rfl⟩, ?_, fun hkeys last hlast => ?_⟩
  · rw [refuseOversized] at hfits
    by_contra hover
    rw [if_neg (by simpa using hover)] at hfits
    exact nomatch hfits
  · rw [refuseStalledRun, if_pos hkeys, hlast, refuseStalledClock] at hclock
    by_contra hstalled
    rw [if_neg hstalled] at hclock
    exact nomatch hclock

end Prepare

/-! ## What is handed over -/

section Send

variable {W : Surroundings F} {publication : Publication F} {keys : Keys}
  {client : Dialling.RelayClient}

theorem tryCollect_eq_ok {α ε β : Type} {attempts : List (α × Except ε β)}
    {deliveries : List (α × β)} (h : tryCollect attempts = .ok deliveries) :
    attempts = deliveries.map fun delivery => (delivery.1, .ok delivery.2) := by
  induction attempts generalizing deliveries with
  | nil =>
      cases h
      rfl
  | cons attempt rest ih =>
      obtain ⟨document, answer⟩ := attempt
      cases answer with
      | error reason => exact nomatch h
      | ok delivery =>
          rw [tryCollect] at h
          cases hrest : tryCollect rest with
          | error reason =>
              rw [hrest] at h
              exact nomatch h
          | ok more =>
              rw [hrest] at h
              cases h
              rw [ih hrest]
              rfl

/-- When nothing failed everything was handed over. -/
theorem started_of_ok {α ε β : Type} (deliveries : List (α × β)) :
    started (deliveries.map fun delivery => (delivery.1, (Except.ok delivery.2 : Except ε β)))
      = deliveries.map fun delivery => (delivery.1, .ok delivery.2) := by
  have hnone : (deliveries.map fun delivery =>
      (delivery.1, (Except.ok delivery.2 : Except ε β))).findIdx (fun a => !a.2.isOk)
        = deliveries.length := by
    rw [List.findIdx_eq_length.mpr, List.length_map]
    intro attempt hattempt
    obtain ⟨delivery, -, rfl⟩ := List.mem_map.mp hattempt
    rfl
  rw [started, hnone]
  exact List.take_of_length_le (by simp)

/-- A document handed over is one that the run sends. -/
theorem mem_attempts {attempt : Document F × Except String Delivery}
    (h : attempt ∈ attempts A W publication) : attempt.1 ∈ publication.toSend := by
  rw [attempts] at h
  obtain ⟨i, hi, rfl⟩ := List.mem_mapIdx.mp h
  exact List.getElem_mem hi

theorem map_attempts : (attempts A W publication).map Prod.fst = publication.toSend := by
  refine List.ext_getElem (by simp [attempts]) fun i hi hi' => ?_
  simp [attempts]

/-- What a run that reached its index had done by then. -/
structure Delivered (A : Floats F) (W : Surroundings F) (publication : Publication F)
    (sent : Sent F) : Prop where
  whole : sent.documents = attempts A W publication
  taken : ∀ attempt ∈ sent.documents, ∃ delivery, attempt.2 = .ok delivery
    ∧ delivery.isPublished = true

theorem delivered {answer : Except String Delivery}
    (h : (sendTo A W publication keys client).1.index = some answer) :
    Delivered A W publication (sendTo A W publication keys client).1 := by
  rw [sendTo] at h ⊢
  dsimp only at h ⊢
  cases hcollect : tryCollect (attempts A W publication) with
  | error reason =>
      rw [hcollect] at h
      exact nomatch h
  | ok deliveries =>
      rw [hcollect] at h
      dsimp only at h ⊢
      have hall := tryCollect_eq_ok hcollect
      by_cases hrefused : (!(refusals deliveries).isEmpty) = true
      · rw [if_pos hrefused] at h
        exact nomatch h
      · rw [if_neg hrefused]
        have hempty : refusals deliveries = [] := by simpa using hrefused
        constructor
        · show started (attempts A W publication) = _
          rw [hall, started_of_ok]
        · intro attempt hattempt
          change attempt ∈ started (attempts A W publication) at hattempt
          rw [hall, started_of_ok] at hattempt
          obtain ⟨delivery, hdelivery, rfl⟩ := List.mem_map.mp hattempt
          refine ⟨delivery.2, rfl, ?_⟩
          by_contra hnot
          rw [refusals, List.map_eq_nil_iff, List.filter_eq_nil_iff] at hempty
          exact hempty delivery hdelivery (by simpa using hnot)

/-- Every document is on a relay once the index has been handed over. -/
theorem Delivered.exists_taken {sent : Sent F} (h : Delivered A W publication sent)
    {document : Document F} (hsend : document ∈ publication.toSend) :
    ∃ attempt ∈ sent.documents, attempt.1 = document
      ∧ ∃ delivery, attempt.2 = .ok delivery ∧ delivery.isPublished = true := by
  rw [← map_attempts (A := A) (W := W), ← h.whole] at hsend
  obtain ⟨attempt, hattempt, rfl⟩ := List.mem_map.mp hsend
  exact ⟨attempt, hattempt, rfl, h.taken attempt hattempt⟩

theorem mem_sent {attempt : Document F × Except String Delivery}
    (h : attempt ∈ (sendTo A W publication keys client).1.documents) :
    attempt.1 ∈ publication.toSend := by
  have hdocuments : (sendTo A W publication keys client).1.documents
      = started (attempts A W publication) := by
    rw [sendTo]
    dsimp only
    cases tryCollect (attempts A W publication) with
    | error reason => rfl
    | ok deliveries =>
        dsimp only
        split_ifs
        · rfl
        · rfl
  rw [hdocuments] at h
  exact mem_attempts (List.mem_of_mem_take h)

/-- A run comes to its end exactly when a relay took its index. -/
theorem sendTo_ok (A : Floats F) (W : Surroundings F) (publication : Publication F)
    (keys : Keys) (client : Dialling.RelayClient) :
    (∃ text, (sendTo A W publication keys client).2 = .ok text)
      ↔ ∃ delivery, (sendTo A W publication keys client).1.index = some (.ok delivery)
        ∧ delivery.isPublished = true := by
  rw [sendTo]
  dsimp only
  cases tryCollect (attempts A W publication) with
  | error reason =>
      constructor
      · rintro ⟨text, htext⟩
        exact nomatch htext
      · rintro ⟨delivery, hindex, -⟩
        exact nomatch hindex
  | ok deliveries =>
      dsimp only
      split_ifs with hrefused
      · constructor
        · rintro ⟨text, htext⟩
          exact nomatch htext
        · rintro ⟨delivery, hindex, -⟩
          exact nomatch hindex
      · cases W.answer publication.toSend.length
            (Signer.signIndex publication.snapshot.run publication.index) with
        | error reason =>
            constructor
            · rintro ⟨text, htext⟩
              exact nomatch htext
            · rintro ⟨delivery, hindex, -⟩
              exact nomatch hindex
        | ok delivery =>
            dsimp only
            by_cases htaken : delivery.isPublished = true
            · rw [if_pos htaken]
              exact ⟨fun _ => ⟨delivery, rfl, htaken⟩, fun _ => ⟨_, rfl⟩⟩
            · rw [if_neg htaken]
              constructor
              · rintro ⟨text, htext⟩
                exact nomatch htext
              · rintro ⟨other, hindex, hother⟩
                cases hindex
                exact absurd hother htaken

end Send

/-! ## A run and what it leaves -/

/-- The publication a run wrote down. -/
def Outcome.recorded (outcome : Outcome F) : Option (Publication F) :=
  match outcome.result with
  | .ok (some _) => outcome.publication
  | _ => none

/-- Whether a relay took the index. -/
def Sent.IndexTaken (sent : Sent F) : Prop :=
  ∃ delivery, sent.index = some (.ok delivery) ∧ delivery.isPublished = true

section Run

variable {W : Surroundings F} {ledger : Ledger} {command : Command}

/-- A run comes to nothing before the relays, or it sends. -/
inductive Ran (digest : String → String) (A : Floats F) (W : Surroundings F)
    (command : Command) (ledger : Ledger) : Outcome F × Ledger → Prop where
  | kept {outcome : Outcome F} (hsent : outcome.sent = ⟨[], none⟩)
      (hrecorded : outcome.recorded = none) : Ran digest A W command ledger (outcome, ledger)
  | sent {publication : Publication F} {keys : Keys} (client : Dialling.RelayClient)
      (hprepared : prepare digest A W ledger command = .ok (publication, some keys)) :
      Ran digest A W command ledger
        (⟨some publication, (sendTo A W publication keys client).1,
          (sendTo A W publication keys client).2.map some⟩,
        match (sendTo A W publication keys client).2 with
        | .ok _ => ledger.record publication
        | .error _ => ledger)

theorem ran (digest : String → String) (A : Floats F) (W : Surroundings F) (command : Command)
    (ledger : Ledger) :
    Ran digest A W command ledger (run digest A W command ledger) := by
  rw [run]
  cases hprepare : prepare digest A W ledger command with
  | error refusal => exact .kept rfl rfl
  | ok prepared =>
      obtain ⟨publication, keys⟩ := prepared
      cases keys with
      | none => exact .kept rfl rfl
      | some keys =>
          dsimp only
          cases Dialling.RelayClient.connect W.pass W.settings.relays with
          | none => exact .kept rfl rfl
          | some client =>
              have hsent := Ran.sent client hprepare
              dsimp only
              cases hsend : sendTo A W publication keys client with
              | mk handed result =>
                  rw [hsend] at hsent
                  cases result with
                  | error refusal => exact hsent
                  | ok text => exact hsent

/-- Whether a run records or not is whether a relay took its index, and then every
    document it had to send was taken before. -/
theorem ran_taken {result : Outcome F × Ledger} (h : Ran digest A W command ledger result) :
    result.2 = result.1.recorded.elim ledger ledger.record
      ∧ (result.1.recorded.isSome = true ↔ result.1.sent.IndexTaken) := by
  cases h with
  | kept hsent hrecorded =>
      rw [hrecorded, hsent]
      refine ⟨rfl, fun h => Bool.noConfusion h, ?_⟩
      rintro ⟨delivery, hindex, -⟩
      exact nomatch hindex
  | @sent publication keys client hprepared =>
      have htaken := sendTo_ok A W publication keys client
      dsimp only
      rw [Sent.IndexTaken, ← htaken]
      cases hsend : (sendTo A W publication keys client).2 with
      | error refusal =>
          refine ⟨rfl, fun h => Bool.noConfusion h, ?_⟩
          rintro ⟨text, htext⟩
          exact nomatch htext
      | ok text => exact ⟨rfl, fun _ => ⟨text, rfl⟩, fun _ => rfl⟩

/-- A run that handed over its index, and what it had prepared. -/
theorem ran_index {result : Outcome F × Ledger} (h : Ran digest A W command ledger result)
    {answer : Except String Delivery} (hindex : result.1.sent.index = some answer) :
    ∃ publication keys, Prepared digest A W ledger command publication (some keys)
      ∧ result.1.publication = some publication
      ∧ Delivered A W publication result.1.sent := by
  cases h with
  | kept hsent hrecorded =>
      rw [hsent] at hindex
      exact nomatch hindex
  | @sent publication keys client hprepared =>
      exact ⟨publication, keys, prepared hprepared, rfl, delivered hindex⟩

/-- A run that recorded a publication. -/
theorem ran_recorded {result : Outcome F × Ledger} (h : Ran digest A W command ledger result)
    {publication : Publication F} (hrecorded : result.1.recorded = some publication) :
    (∃ keys, Prepared digest A W ledger command publication (some keys))
      ∧ Delivered A W publication result.1.sent
      ∧ result.2 = ledger.record publication := by
  obtain ⟨hleft, hsome⟩ := ran_taken h
  obtain ⟨delivery, hindex, -⟩ := hsome.mp (by rw [hrecorded]; rfl)
  obtain ⟨computed, keys, hprepared, hpublication, hdelivered⟩ := ran_index h hindex
  have heq : computed = publication := by
    rw [Outcome.recorded] at hrecorded
    split at hrecorded
    · rw [hpublication] at hrecorded
      exact Option.some.inj hrecorded
    · exact nomatch hrecorded
  subst heq
  refine ⟨⟨keys, hprepared⟩, hdelivered, ?_⟩
  rw [hleft, hrecorded]
  rfl

end Run

/-! ## A lifetime -/

/-- One run of the command, and what it found. -/
structure Publishing (F : Type) where
  surroundings : Surroundings F
  command : Command

/-- What it came to, and what it left, over a ledger. -/
def Publishing.run (digest : String → String) (A : Floats F) (publishing : Publishing F)
    (ledger : Ledger) : Outcome F × Ledger :=
  Publish.run digest A publishing.surroundings publishing.command ledger

/-- The ledger after runs one after another, and the runs that were recorded. -/
def lifetime (digest : String → String) (A : Floats F) (history : List (Publishing F)) :
    Ledger × List PastRun :=
  history.foldl (fun lived publishing =>
    let result := publishing.run digest A lived.1
    (result.2, lived.2 ++ (result.1.recorded.map Publication.pastRun).toList))
    (Ledger.empty, [])

theorem lifetime_concat (history : List (Publishing F)) (publishing : Publishing F) :
    lifetime digest A (history ++ [publishing])
      = ((publishing.run digest A (lifetime digest A history).1).2,
        (lifetime digest A history).2
          ++ ((publishing.run digest A (lifetime digest A history).1).1.recorded.map
            Publication.pastRun).toList) := by
  rw [lifetime, List.foldl_append]
  rfl

/-! ## The clock advances -/

/-- A run that reads back as it was written, named by its clock. -/
structure PastRun.Faithful (run : PastRun) : Prop where
  readBack : run.row.run = run
  named : run.snapshotId = Publish.snapshotId run.generatedAt

/-- The table holds these runs, each later than the one before. -/
structure Remembers (lived : Ledger × List PastRun) : Prop where
  rows : ∀ (id : String) row, lived.1.runs[id]? = some row
    ↔ ∃ run ∈ lived.2, run.snapshotId = id ∧ run.row = row
  later : lived.2.Pairwise fun run run' => run.generatedAt < run'.generatedAt
  faithful : ∀ run ∈ lived.2, run.Faithful

/-- **THE LAST RUN IS THE ONE READ BACK.** -/
theorem Remembers.latestRun {lived : Ledger × List PastRun} (h : Remembers lived) :
    lived.1.latestRun = lived.2.getLast? := by
  obtain ⟨ledger, runs⟩ := lived
  rw [Ledger.latestRun]
  dsimp only
  induction runs using List.reverseRecOn with
  | nil =>
      have hnone : first RunRow.newest ledger.runs (fun _ => true) = none := by
        rw [first_eq_none_iff]
        intro id row hrow
        obtain ⟨run, hrun, -⟩ := (h.rows id row).mp hrow
        exact nomatch hrun
      rw [hnone]
      rfl
  | append_singleton runs last _ =>
      have hlast : last ∈ runs ++ [last] := List.mem_append_right _ List.mem_cons_self
      have hrow : ledger.runs[last.snapshotId]? = some last.row :=
        (h.rows _ _).mpr ⟨last, hlast, rfl, rfl⟩
      rw [List.getLast?_concat]
      cases hfirst : first RunRow.newest ledger.runs (fun _ => true) with
      | none => exact nomatch (first_eq_none_iff _).mp hfirst _ _ hrow
      | some row =>
          obtain ⟨⟨id, hid⟩, -⟩ := first_mem hfirst
          obtain ⟨run, hrun, -, rfl⟩ := (h.rows id row).mp hid
          have hnewest : last.generatedAt ≤ run.generatedAt := by
            have hle := first_le hfirst hrow rfl
            rw [RunRow.newest, RunRow.newest, Prod.Lex.toLex_le_toLex] at hle
            rcases hle with hlt | ⟨heq, -⟩
            · exact le_of_lt (OrderDual.toDual_lt_toDual.mp hlt)
            · exact le_of_eq (OrderDual.toDual_inj.mp heq).symm
          rcases List.mem_append.mp hrun with hearlier | hsame
          · have hlt := (List.pairwise_append.mp h.later).2.2 run hearlier last
              List.mem_cons_self
            exact absurd hlt (not_lt.mpr hnewest)
          · rw [List.mem_singleton.mp hsame]
            exact congrArg some (h.faithful last hlast).readBack

/-- A computed publication reads back, and is named by its clock. -/
theorem faithful_compute (digest : String → String) (A : Floats F) (W : Surroundings F)
    (ledger : Ledger) (republish : Republish) (now : Int) :
    (compute digest A W ledger republish now).pastRun.Faithful
      ∧ (compute digest A W ledger republish now).pastRun.generatedAt = now := by
  have hrun : (compute digest A W ledger republish now).snapshot.run = ⟨snapshotId now, now⟩ := by
    show ((Snapshot.compute digest A W.archive.data W.archive.coverage
      (snapshotId now) now).restated _ _ _).snapshot.run = _
    rw [restated_eq]
    rfl
  have hcounted := W.archive.counted
  refine ⟨⟨?_, ?_⟩, ?_⟩
  · have hevents : (max (((W.archive.events : Int) + 2 ^ 63) % 2 ^ 64 - 2 ^ 63) 0).toNat
        = W.archive.events := by omega
    rw [Publication.pastRun, PastRun.row, RunRow.run]
    simp only [PastRun.mk.injEq, true_and]
    exact ⟨rfl, hevents⟩
  · rw [Publication.pastRun, hrun]
  · rw [Publication.pastRun, hrun]

/-- **STEP**. -/
theorem Remembers.run {history : List (Publishing F)} (publishing : Publishing F)
    (h : Remembers (lifetime digest A history)) :
    Remembers (lifetime digest A (history ++ [publishing])) := by
  rw [lifetime_concat]
  have hran := ran digest A publishing.surroundings publishing.command
    (lifetime digest A history).1
  change Ran _ _ _ _ _ (publishing.run digest A (lifetime digest A history).1) at hran
  generalize publishing.run digest A (lifetime digest A history).1 = result at hran
  cases hrecorded : result.1.recorded with
  | none =>
      have hleft := (ran_taken hran).1
      rw [hrecorded] at hleft
      rw [hleft, Option.map_none, Option.toList_none, List.append_nil]
      exact h
  | some publication =>
      obtain ⟨⟨keys, hprepared⟩, -, hleft⟩ := ran_recorded hran hrecorded
      obtain ⟨republish, -, rfl⟩ := hprepared.computed
      obtain ⟨hfaithful, hnow⟩ := faithful_compute digest A publishing.surroundings
        (lifetime digest A history).1 republish publishing.command.now
      rw [hleft, Option.map_some, Option.toList_some]
      have hclock : ∀ run ∈ (lifetime digest A history).2,
          run.generatedAt < publishing.command.now := by
        intro run hrun
        have hlatest := hprepared.clock rfl
        rw [h.latestRun] at hlatest
        obtain ⟨earlier, last, hsplit⟩ : ∃ earlier last,
            (lifetime digest A history).2 = earlier ++ [last] :=
          (List.eq_nil_or_concat' _).resolve_left (List.ne_nil_of_mem hrun)
        have hlast := hlatest last (by rw [hsplit, List.getLast?_concat])
        have hlater := h.later
        rw [hsplit] at hrun hlater
        rcases List.mem_append.mp hrun with hearlier | hsame
        · exact lt_trans ((List.pairwise_append.mp hlater).2.2 run hearlier last
            List.mem_cons_self) hlast
        · rw [List.mem_singleton.mp hsame]
          exact hlast
      generalize compute digest A publishing.surroundings (lifetime digest A history).1
        republish publishing.command.now = publication at *
      constructor
      · intro id row
        show (((lifetime digest A history).1.runs.insert publication.pastRun.snapshotId
          publication.pastRun.row)[id]? = some row) ↔ _
        rw [Std.ExtTreeMap.getElem?_insert]
        by_cases hid : publication.pastRun.snapshotId = id
        · rw [if_pos (by rw [Std.LawfulEqCmp.compare_eq_iff_eq]; exact hid), Option.some.injEq]
          constructor
          · intro hrow
            exact ⟨publication.pastRun, List.mem_append_right _ List.mem_cons_self, hid, hrow⟩
          · rintro ⟨run, hrun, hname, hrow⟩
            rcases List.mem_append.mp hrun with hearlier | hsame
            · -- An earlier run has an earlier clock, and so another name.
              have hsameName : snapshotId run.generatedAt
                  = snapshotId publication.pastRun.generatedAt := by
                rw [← (h.faithful run hearlier).named, ← hfaithful.named, hname, hid]
              have hlt := hclock run hearlier
              rw [snapshotId_injective hsameName, hnow] at hlt
              exact absurd hlt (lt_irrefl _)
            · rw [← hrow, List.mem_singleton.mp hsame]
        · rw [if_neg (by rw [Std.LawfulEqCmp.compare_eq_iff_eq]; exact hid), h.rows id row]
          constructor
          · rintro ⟨run, hrun, hname, hrow⟩
            exact ⟨run, List.mem_append_left _ hrun, hname, hrow⟩
          · rintro ⟨run, hrun, hname, hrow⟩
            rcases List.mem_append.mp hrun with hearlier | hsame
            · exact ⟨run, hearlier, hname, hrow⟩
            · rw [List.mem_singleton.mp hsame] at hname
              exact absurd hname hid
      · refine List.pairwise_append.mpr ⟨h.later, List.pairwise_singleton _ _, ?_⟩
        intro run hrun run' hrun'
        rw [List.mem_singleton.mp hrun', hnow]
        exact hclock run hrun
      · intro run hrun
        rcases List.mem_append.mp hrun with hearlier | hsame
        · exact h.faithful run hearlier
        · rw [List.mem_singleton.mp hsame]
          exact hfaithful

/-- **RUN**. -/
theorem remembers_lifetime (digest : String → String) (A : Floats F)
    (history : List (Publishing F)) : Remembers (lifetime digest A history) := by
  induction history using List.reverseRecOn with
  | nil =>
      refine ⟨fun id row => ⟨fun h => (nomatch h), ?_⟩, List.Pairwise.nil,
        fun run hrun => nomatch hrun⟩
      rintro ⟨run, hrun, -⟩
      exact nomatch hrun
  | append_singleton history publishing ih => exact ih.run publishing

/-- **THE CLOCK ADVANCES FROM ONE RECORDED RUN TO THE NEXT.**  In whatever order runs
    come, at whatever clocks, completed or not: those that were recorded have strictly
    later clocks each, the table holds them and nothing else, none written over another,
    and the one read back is the last. -/
theorem clocks_advance (digest : String → String) (A : Floats F)
    (history : List (Publishing F)) :
    (lifetime digest A history).2.Pairwise (fun run run' => run.generatedAt < run'.generatedAt)
      ∧ (lifetime digest A history).1.latestRun = (lifetime digest A history).2.getLast?
      ∧ ∀ (id : String) row, (lifetime digest A history).1.runs[id]? = some row
        ↔ ∃ run ∈ (lifetime digest A history).2, run.snapshotId = id ∧ run.row = row :=
  have h := remembers_lifetime digest A history
  ⟨h.later, h.latestRun, h.rows⟩

/-! ## What the index promises -/

/-- The clocks the runs had are of four digits. -/
def FourDigits (history : List (Publishing F)) : Prop :=
  ∀ publishing ∈ history, Timestamp.FourDigit publishing.command.now

/-- In one of the runs a relay took a document under `d` with this hash; and if every
    clock was of four digits, it was published as this entry. -/
def Taken (digest : String → String) (A : Floats F) (history : List (Publishing F))
    (d hash : String) (listed : Entry) : Prop :=
  ∃ earlier publishing later, history = earlier ++ publishing :: later
    ∧ ∃ attempt ∈
        (publishing.run digest A (lifetime digest A earlier).1).1.sent.documents,
      (∃ delivery, attempt.2 = .ok delivery ∧ delivery.isPublished = true)
        ∧ attempt.1.address.toString = d ∧ attempt.1.hash = hash
        ∧ (FourDigits history → entry attempt.1 = listed)

/-- A record of an address was earned. -/
structure Earned (digest : String → String) (A : Floats F) (history : List (Publishing F))
    (d : String) (previous : Previous) : Prop where
  taken : Taken digest A history d previous.hash (previous.entry d)
  dated : FourDigits history → previous.Dated
  small : previous.revision < 2 ^ 32

theorem FourDigits.before {history : List (Publishing F)} {publishing : Publishing F}
    (h : FourDigits (history ++ [publishing])) : FourDigits history :=
  fun earlier hearlier => h earlier (List.mem_append_left _ hearlier)

theorem Taken.later {history : List (Publishing F)} {d hash : String} {listed : Entry}
    (h : Taken digest A history d hash listed) (publishing : Publishing F) :
    Taken digest A (history ++ [publishing]) d hash listed := by
  obtain ⟨earlier, taken, later, hsplit, attempt, hattempt, hdelivery, hd, hhash, hentry⟩ := h
  refine ⟨earlier, taken, later ++ [publishing], by rw [hsplit]; simp, attempt, hattempt,
    hdelivery, hd, hhash, fun hdigits => hentry hdigits.before⟩

theorem Taken.relist {history : List (Publishing F)} {d hash : String} {listed listed' : Entry}
    (h : Taken digest A history d hash listed) (heq : FourDigits history → listed = listed') :
    Taken digest A history d hash listed' := by
  obtain ⟨earlier, taken, later, hsplit, attempt, hattempt, hdelivery, hd, hhash, hentry⟩ := h
  exact ⟨earlier, taken, later, hsplit, attempt, hattempt, hdelivery, hd, hhash,
    fun hdigits => (hentry hdigits).trans (heq hdigits)⟩

theorem Earned.later {history : List (Publishing F)} {d : String} {previous : Previous}
    (h : Earned digest A history d previous) (publishing : Publishing F) :
    Earned digest A (history ++ [publishing]) d previous :=
  ⟨h.taken.later publishing, fun hdigits => h.dated hdigits.before, h.small⟩

/-- A revision read from a row is one a `u32` holds. -/
theorem revision_row (row : PublishedRow) : row.previous.revision < 2 ^ 32 := by
  rw [PublishedRow.previous]
  cases hrestatement : (row.restatedAt.bind fun at' => row.restatedBecause.map fun because =>
      (⟨at', because⟩ : Restatement)) with
  | none => show (1 : Nat) < 2 ^ 32; decide
  | some restatement =>
      rw [Option.bind_some, Previous.restated?]
      split
      · show (max row.revision 0).toNat % 2 ^ 32 < 2 ^ 32
        exact Nat.mod_lt _ (by decide)
      · show (1 : Nat) < 2 ^ 32
        decide

theorem next_small {clock : Int} {hash : String} {because : Because}
    {previous : Option Previous} (h : ∀ p, previous = some p → p.revision < 2 ^ 32) :
    (Previous.next clock hash because previous).revision < 2 ^ 32 := by
  cases previous with
  | none => show (1 : Nat) < 2 ^ 32; decide
  | some previous =>
      by_cases hsame : previous.hash = hash
      · rw [Previous.next_of_eq hsame]
        exact h previous rfl
      · rw [Previous.next_of_ne hsame]
        show nextRevision previous.revision < 2 ^ 32
        rw [nextRevision]
        omega

section Computed

variable {W : Surroundings F} {ledger : Ledger} {republish : Republish} {now : Int}

/-- The snapshot a run starts from. -/
def Surroundings.computed (digest : String → String) (A : Floats F) (W : Surroundings F)
    (now : Int) : Snapshot F :=
  Snapshot.compute digest A W.archive.data W.archive.coverage (snapshotId now) now

/-- Why the figures moved, as a run infers it. -/
def Surroundings.because (W : Surroundings F) (ledger : Ledger) : Because :=
  .inferred (ledger.latestRun.elim W.archive.read PastRun.read) W.archive.read

/-- A document as a run publishes it. -/
def placedIn (digest : String → String) (A : Floats F) (W : Surroundings F) (ledger : Ledger)
    (now : Int) (document : Document F) : Document F :=
  ((W.computed digest A now).placed ledger.published.all (W.because ledger) document).1

theorem compute_documents :
    (compute digest A W ledger republish now).snapshot.documents
      = (W.computed digest A now).documents.map (placedIn digest A W ledger now) :=
  restated_documents

/-- A document is sent, or its figures are the recorded ones. -/
theorem sent_or_recorded (ledger : Ledger) (republish : Republish) {document : Document F}
    (h : document ∈ (W.computed digest A now).documents) :
    placedIn digest A W ledger now document
        ∈ (compute digest A W ledger republish now).toSend
      ∨ ∃ previous, ledger.published.all[document.address.toString]? = some previous
        ∧ previous.hash = document.hash := by
  by_cases hsent : document.address.toString
      ∈ (compute digest A W ledger republish now).notSent
  · refine Or.inr ?_
    obtain ⟨other, hother, haddress, hhash, -⟩ := mem_notSent.mp hsent
    obtain ⟨previous, hprevious, hsame⟩ := Option.map_eq_some_iff.mp hhash
    rw [haddress] at hprevious
    have hagree := (compute_agree other hother document h
      (toString_injective haddress)).1
    exact ⟨previous, hprevious, hsame.trans hagree⟩
  · refine Or.inl (List.mem_filter.mpr ⟨?_, ?_⟩)
    · rw [compute_documents]
      exact List.mem_map_of_mem h
    · have haddress : (placedIn digest A W ledger now document).address = document.address :=
        against_address
      rw [haddress]
      exact decide_eq_true hsent

/-- What a document is published as. -/
theorem entry_placedIn (document : Document F) :
    entry (placedIn digest A W ledger now document)
      = (Previous.next now document.hash (W.because ledger)
          ledger.published.all[document.address.toString]?).entry document.address.toString := by
  show entry (against _ document _ _).1 = _
  rw [against_eq, entry_publish (Previous.next_hash _)]
  rfl

/-- What a document is recorded as. -/
theorem recorded_placedIn {document : Document F} (hclock : Timestamp.FourDigit now)
    (hdated : ∀ p, ledger.published.all[document.address.toString]? = some p → p.Dated) :
    recorded (placedIn digest A W ledger now document)
      = Previous.next now document.hash (W.because ledger)
          ledger.published.all[document.address.toString]? :=
  @recorded_against F ⟨snapshotId now, now⟩ document _ _ hclock hdated

/-- A record a run leaves is that of a document it computed. -/
theorem state_eq_some {d : String} {record : Previous}
    (h : (compute digest A W ledger republish now).state[d]? = some record) :
    ∃ document ∈ (W.computed digest A now).documents, document.address.toString = d
      ∧ recorded (placedIn digest A W ledger now document) = record := by
  change ((W.computed digest A now).restated ledger.published.all (W.because ledger)
    republish).state[d]? = some record at h
  by_cases hcomputed : ∃ document ∈ (W.computed digest A now).documents,
      document.address.toString = d
  · obtain ⟨document, hmem, haddress, hrow⟩ := exists_restated_state ledger.published.all
      (W.because ledger) republish hcomputed
    rw [h, Option.some.injEq] at hrow
    exact ⟨document, hmem, haddress, hrow.symm⟩
  · rw [restated_state, getElem?_collect_eq_none fun document hmem haddress =>
      hcomputed ⟨document, hmem, haddress⟩] at h
    exact nomatch h

end Computed

/-- What a run's index names was taken, now or before. -/
theorem entries_taken {history : List (Publishing F)} {publishing : Publishing F}
    (hledger : ∀ (d : String) previous,
      (lifetime digest A history).1.published.all[d]? = some previous →
        Earned digest A history d previous)
    {republish : Republish} {sent : Sent F}
    (hsent : (publishing.run digest A (lifetime digest A history).1).1.sent = sent)
    (hdelivered : Delivered A publishing.surroundings
      (compute digest A publishing.surroundings (lifetime digest A history).1 republish
        publishing.command.now) sent)
    {document : Document F}
    (hdocument : document ∈
      (publishing.surroundings.computed digest A publishing.command.now).documents) :
    Taken digest A (history ++ [publishing]) document.address.toString document.hash
      (entry (placedIn digest A publishing.surroundings (lifetime digest A history).1
        publishing.command.now document)) := by
  rcases sent_or_recorded (lifetime digest A history).1 republish hdocument with
    hsend | ⟨previous, hrow, hsame⟩
  · obtain ⟨attempt, hattempt, heq, hdelivery⟩ := hdelivered.exists_taken hsend
    refine ⟨history, publishing, [], rfl, attempt, by rw [hsent]; exact hattempt, hdelivery,
      ?_, ?_, fun _ => by rw [heq]⟩
    · rw [heq]
      exact congrArg Address.toString against_address
    · rw [heq]
      exact against_hash
  · have hearned := (hledger _ previous hrow).taken.later publishing
    rw [entry_placedIn, hrow, Previous.next_of_eq hsame, ← hsame]
    exact hearned

/-- **STEP**. -/
theorem earned_run {history : List (Publishing F)} (publishing : Publishing F)
    (hledger : ∀ (d : String) previous,
      (lifetime digest A history).1.published.all[d]? = some previous →
        Earned digest A history d previous)
    {d : String} {previous : Previous}
    (hrow : (lifetime digest A (history ++ [publishing])).1.published.all[d]?
      = some previous) : Earned digest A (history ++ [publishing]) d previous := by
  rw [lifetime_concat] at hrow
  have hran := ran digest A publishing.surroundings publishing.command
    (lifetime digest A history).1
  change Ran _ _ _ _ _ (publishing.run digest A (lifetime digest A history).1) at hran
  cases hrecorded : (publishing.run digest A (lifetime digest A history).1).1.recorded with
  | none =>
      have hleft := (ran_taken hran).1
      rw [hrecorded] at hleft
      rw [hleft] at hrow
      exact (hledger d previous hrow).later publishing
  | some publication =>
      obtain ⟨⟨keys, hprepared⟩, hdelivered, hleft⟩ := ran_recorded hran hrecorded
      obtain ⟨republish, -, rfl⟩ := hprepared.computed
      rw [hleft] at hrow
      change ((lifetime digest A history).1.published.record (compute digest A
        publishing.surroundings (lifetime digest A history).1 republish
        publishing.command.now).state).all[d]? = some previous at hrow
      rw [all_record] at hrow
      cases hstate : (compute digest A publishing.surroundings (lifetime digest A history).1
          republish publishing.command.now).state[d]? with
      | none =>
          rw [hstate] at hrow
          exact (hledger d previous hrow).later publishing
      | some record =>
          rw [hstate, Option.map_some, Option.some_or, Option.some.injEq] at hrow
          obtain ⟨document, hdocument, rfl, rfl⟩ := state_eq_some hstate
          have htaken := entries_taken hledger rfl hdelivered hdocument
          -- What goes through the envelope and the row is what was published.
          have hnext : FourDigits (history ++ [publishing]) →
              previous = Previous.next publishing.command.now document.hash
                (publishing.surroundings.because (lifetime digest A history).1)
                (lifetime digest A history).1.published.all[document.address.toString]? := by
            intro hdigits
            rw [← hrow, recorded_placedIn
              (hdigits publishing (List.mem_append_right _ List.mem_cons_self))
              (fun p hp => (hledger _ p hp).dated hdigits.before)]
            exact previous_row (next_small fun p hp => (hledger _ p hp).small)
          have hhash : previous.hash = document.hash := by
            rw [← hrow, previous_row_hash, recorded_hash]
            exact against_hash
          refine ⟨?_, fun hdigits => ?_, ?_⟩
          · rw [hhash]
            refine htaken.relist fun hdigits => ?_
            rw [entry_placedIn, ← hnext hdigits]
          · rw [hnext hdigits]
            exact Previous.next_dated
              (hdigits publishing (List.mem_append_right _ List.mem_cons_self))
              (fun p hp => (hledger _ p hp).dated hdigits.before)
          · rw [← hrow]
            exact revision_row _

/-- **RUN**: every record was earned. -/
theorem earned (digest : String → String) (A : Floats F) (history : List (Publishing F))
    (d : String) (previous : Previous)
    (h : (lifetime digest A history).1.published.all[d]? = some previous) :
    Earned digest A history d previous := by
  induction history using List.reverseRecOn generalizing d previous with
  | nil => exact nomatch h
  | append_singleton history publishing ih => exact earned_run publishing ih h

/-! ## Nothing too large is handed over -/

/-- A content fits under what the configuration allows and what every relay states. -/
def Fits (W : Surroundings F) (bytes : Nat) : Prop :=
  bytes ≤ W.settings.maxContentBytes
    ∧ ∀ relay ∈ W.settings.relays, ∀ limit, limitOf W.serves relay = some limit → bytes ≤ limit

section Fits

variable {W : Surroundings F} {ledger : Ledger} {republish : Republish} {now : Int}

theorem fits_iff (digest : String → String) (A : Floats F) (ledger : Ledger)
    (republish : Republish) (now : Int) {bytes : Nat} :
    Fits W bytes ↔ bytes ≤ (compute digest A W ledger republish now).ceiling.bytes := by
  show _ ↔ bytes ≤ ((Ceiling.configured W.settings.maxContentBytes).lowered
    (limits W.serves W.settings.relays)).bytes
  rw [Ceiling.le_lowered_iff]
  refine and_congr_right fun _ => ⟨fun h limit hlimit => ?_, fun h relay hrelay limit hlimit => ?_⟩
  · obtain ⟨advertised, hadvertised, heq⟩ := List.mem_filterMap.mp hlimit
    obtain ⟨relay, hrelay, rfl⟩ := List.mem_map.mp hadvertised
    exact h relay hrelay limit heq
  · exact h limit (List.mem_filterMap.mpr
      ⟨⟨relay, limitOf W.serves relay⟩, List.mem_map_of_mem hrelay, hlimit⟩)

/-- **THE GATE IS EXACT**: what is computed gets past it exactly when every document and
    the index fit. -/
theorem refuseOversized_iff :
    Measured.over (compute digest A W ledger republish now).measured
        (compute digest A W ledger republish now).ceiling = []
      ↔ ∀ document ∈ (compute digest A W ledger republish now).measured,
          Fits W document.bytes := by
  rw [Measured.over, List.filter_eq_nil_iff]
  refine forall₂_congr fun document _ => ?_
  rw [fits_iff digest A ledger republish now, decide_eq_true_iff, gt_iff_lt, not_lt]

end Fits

/-- **NOTHING OVER A LIMIT IS HANDED TO ANYONE**, to whichever relay the limit belongs:
    neither a document nor the index, whatever became of the run. -/
theorem oversized_never_sent (digest : String → String) (A : Floats F) (W : Surroundings F)
    (command : Command) (ledger : Ledger) :
    (∀ attempt ∈ (run digest A W command ledger).1.sent.documents,
        Fits W (attempt.1.content A).utf8ByteSize)
      ∧ ∀ answer ∈ (run digest A W command ledger).1.sent.index,
        ∃ publication, (run digest A W command ledger).1.publication = some publication
          ∧ Fits W publication.index.content.utf8ByteSize := by
  have hran := ran digest A W command ledger
  generalize run digest A W command ledger = result at hran
  cases hran with
  | kept hsent hrecorded =>
      rw [hsent]
      exact ⟨fun attempt hattempt => (nomatch hattempt), fun answer hanswer => (nomatch hanswer)⟩
  | @sent publication keys client hprepare =>
      obtain ⟨⟨republish, -, rfl⟩, hover, -⟩ := prepared hprepare
      rw [refuseOversized_iff] at hover
      constructor
      · intro attempt hattempt
        have hsend := List.mem_of_mem_filter (mem_sent hattempt)
        exact hover ⟨attempt.1.address, (attempt.1.content A).utf8ByteSize,
            some attempt.1.hash⟩ (List.mem_append_left _
          (List.mem_map.mpr ⟨attempt.1, hsend, rfl⟩))
      · intro answer _
        refine ⟨compute digest A W ledger republish command.now, rfl, ?_⟩
        have hindex := hover (measureIndex (compute digest A W ledger republish
          command.now).index) (List.mem_append_right _ List.mem_cons_self)
        rw [measureIndex] at hindex
        exact hindex

/-! ## Nothing in the way -/

/-- Nothing stands in the way of a run. -/
structure Unhindered (digest : String → String) (A : Floats F) (W : Surroundings F)
    (command : Command) (ledger : Ledger) (republish : Republish) : Prop where
  whole : command.instance' = none ∧ command.network = none
  signs : command.dryRun = false ∧ ∃ name keys, W.settings.nsec = some name
    ∧ Keys.resolve W name = .ok keys
  clock : ∀ last, ledger.latestRun = some last → last.generatedAt < command.now
  asked : requested command = .ok republish
  fits : ∀ document ∈ (compute digest A W ledger republish command.now).measured,
    Fits W document.bytes
  writes : command.out = true → W.writes = true
  reachable : ∃ client, Dialling.RelayClient.connect W.pass W.settings.relays = some client
  willing : ∀ i posting, ∃ delivery, W.answer i posting = .ok delivery
    ∧ delivery.isPublished = true

section Unhindered

variable {W : Surroundings F} {command : Command} {ledger : Ledger} {republish : Republish}

theorem Unhindered.prepare (h : Unhindered digest A W command ledger republish) :
    ∃ keys, prepare digest A W ledger command
      = .ok (compute digest A W ledger republish command.now, some keys) := by
  obtain ⟨hinstance, hnetwork⟩ := h.whole
  obtain ⟨hdry, name, keys, hnsec, hresolve⟩ := h.signs
  have hkeys : command.keys W = .ok (some keys) := by
    rw [Command.keys, hdry, hnsec]
    dsimp only
    rw [hresolve]
    rfl
  have hscoped : refuseScoped command = .ok () := by
    rw [refuseScoped, hinstance, hnetwork]
    rfl
  have hidle : refuseIdle command (some keys) = .ok () := by
    rw [refuseIdle, Option.isSome_some, Bool.or_true, if_pos rfl]
  have hclock : refuseStalledRun ledger (some keys) command.now = .ok () := by
    rw [refuseStalledRun, Option.isSome_some, if_pos rfl]
    cases hlatest : ledger.latestRun with
    | none => rfl
    | some last => exact if_pos (h.clock last hlatest)
  have hover : refuseOversized (compute digest A W ledger republish command.now) = .ok () := by
    rw [refuseOversized, refuseOversized_iff.mpr h.fits]
    rfl
  have hwrite : command.write W = .ok () := by
    rw [Command.write]
    by_cases hout : command.out = true
    · rw [hout, h.writes hout]
      rfl
    · rw [Bool.not_eq_true _ |>.mp hout]
      rfl
  refine ⟨keys, ?_⟩
  simp only [Publish.prepare, bind_eq_ok]
  exact ⟨(), hscoped, some keys, hkeys, (), hidle, (), hclock, republish, h.asked, (), hover,
    (), hwrite, rfl⟩

theorem tryCollect_of_ok {α ε β : Type} {attempts : List (α × Except ε β)}
    (h : ∀ attempt ∈ attempts, ∃ delivery, attempt.2 = .ok delivery) :
    ∃ deliveries, tryCollect attempts = .ok deliveries := by
  induction attempts with
  | nil => exact ⟨[], rfl⟩
  | cons attempt rest ih =>
      obtain ⟨document, answer⟩ := attempt
      obtain ⟨delivery, hdelivery⟩ := h (document, answer) List.mem_cons_self
      cases hdelivery
      obtain ⟨deliveries, hrest⟩ := ih fun attempt hattempt =>
        h attempt (List.mem_cons_of_mem _ hattempt)
      exact ⟨(document, delivery) :: deliveries, by rw [tryCollect, hrest]; rfl⟩

theorem sendTo_willing (publication : Publication F) (keys : Keys)
    (client : Dialling.RelayClient)
    (h : ∀ i posting, ∃ delivery, W.answer i posting = .ok delivery
      ∧ delivery.isPublished = true) :
    ∃ text, (sendTo A W publication keys client).2 = .ok text := by
  have hanswers : ∀ attempt ∈ attempts A W publication, ∃ delivery,
      attempt.2 = .ok delivery ∧ delivery.isPublished = true := by
    intro attempt hattempt
    rw [attempts] at hattempt
    obtain ⟨i, hi, rfl⟩ := List.mem_mapIdx.mp hattempt
    exact h _ _
  obtain ⟨deliveries, hcollect⟩ := tryCollect_of_ok fun attempt hattempt =>
    (hanswers attempt hattempt).imp fun _ => And.left
  have hnobody : refusals deliveries = [] := by
    rw [refusals, List.map_eq_nil_iff, List.filter_eq_nil_iff]
    intro delivery hdelivery
    rw [tryCollect_eq_ok hcollect] at hanswers
    obtain ⟨taken, heq, htaken⟩ := hanswers _ (List.mem_map_of_mem hdelivery)
    cases heq
    rw [htaken]
    decide
  obtain ⟨taken, hindex, htaken⟩ := h publication.toSend.length
    (Signer.signIndex publication.snapshot.run publication.index)
  rw [sendTo, hcollect]
  dsimp only
  rw [hnobody, List.isEmpty_nil, Bool.not_true, if_neg Bool.false_ne_true, hindex]
  dsimp only
  rw [if_pos htaken]
  exact ⟨_, rfl⟩

/-- It comes to its end, and is recorded. -/
theorem Unhindered.run (h : Unhindered digest A W command ledger republish) :
    (run digest A W command ledger).1.recorded
        = some (compute digest A W ledger republish command.now)
      ∧ (Publish.run digest A W command ledger).2
        = ledger.record (compute digest A W ledger republish command.now) := by
  obtain ⟨keys, hprepare⟩ := h.prepare
  obtain ⟨client, hclient⟩ := h.reachable
  obtain ⟨text, htext⟩ := sendTo_willing (A := A)
    (compute digest A W ledger republish command.now) keys client h.willing
  rw [Publish.run, hprepare]
  dsimp only
  rw [hclient]
  dsimp only
  cases hsend : sendTo A W (compute digest A W ledger republish command.now) keys client with
  | mk sent result =>
      rw [hsend] at htext
      cases htext
      exact ⟨rfl, rfl⟩

end Unhindered

/-! ## A first run -/

/-- An archive that holds nothing. -/
def nothingHeld : Archive Int := ⟨none, none, noData, 0, by decide⟩

/-- One relay that takes everything, and a configuration that allows so many bytes. -/
def willing (bytes : Nat) : Surroundings Int where
  settings := ⟨["wss://a"], bytes, some "BESTIARIO_PUBLISH_NSEC"⟩
  environment := fun _ => some "nsec1a"
  fromBech32 := fun text => some ⟨text⟩
  fromHex := fun _ => none
  npub := fun _ => "npub1a"
  writes := true
  pass := ⟨some, fun _ _ => true⟩
  serves := fun _ => none
  answer := fun _ _ => .ok ⟨["wss://a"], []⟩
  archive := nothingHeld

theorem willing_resolves (bytes : Nat) :
    Keys.resolve (willing bytes) "BESTIARIO_PUBLISH_NSEC" = .ok ⟨"nsec1a"⟩ := by
  have htrim : Wire.trim "nsec1a" = "nsec1a" := by decide
  have hprefix : "nsec1".toList.isPrefixOf "nsec1a".toList = true := by decide
  show Keys.parse (willing bytes) "nsec1a" "`BESTIARIO_PUBLISH_NSEC`" = _
  rw [Keys.parse, htrim, if_pos hprefix]
  rfl

/-- As many bytes as everything computed takes together. -/
def enough : Nat :=
  ((compute id Floats.whole (willing 0) .empty .no 1785600000).measured.map
    Measured.bytes).sum

/-- What is weighed does not depend on what is allowed. -/
theorem measured_willing (bytes : Nat) :
    (compute id Floats.whole (willing bytes) .empty .no 1785600000).measured
      = (compute id Floats.whole (willing 0) .empty .no 1785600000).measured := rfl

/-- The first of August, and a key. -/
def firstRun : Publishing Int where
  surroundings := willing enough
  command := ⟨false, false, false, none, none, none, none, 1785600000⟩

theorem firstRun_unhindered :
    Unhindered id Floats.whole firstRun.surroundings firstRun.command
      (lifetime id Floats.whole []).1 .no where
  whole := ⟨rfl, rfl⟩
  signs := ⟨rfl, "BESTIARIO_PUBLISH_NSEC", ⟨"nsec1a"⟩, rfl, willing_resolves enough⟩
  clock := fun last hlast => nomatch hlast
  asked := rfl
  fits := by
    intro document hdocument
    change document ∈ (compute id Floats.whole (willing enough) .empty .no 1785600000).measured
      at hdocument
    rw [measured_willing] at hdocument
    refine ⟨?_, fun relay _ limit hlimit => nomatch hlimit⟩
    show document.bytes ≤ enough
    rw [enough]
    exact List.single_le_sum (fun _ _ => Nat.zero_le _) _ (List.mem_map_of_mem hdocument)
  writes := fun h => nomatch h
  reachable := ⟨_, rfl⟩
  willing := fun _ _ => ⟨_, rfl, rfl⟩

/-- **THE INDEX GOES LAST, AND NAMES NOTHING NO RELAY TOOK.**  After any runs, completed
    or not, over whatever the archive and the relays were at the time: when a run hands
    its index over, every document it had to send was taken by a relay before; every
    entry of the index is a document some relay took, in this run or in an earlier one,
    under that address and with that hash — and while the clocks have years of four
    digits with that revision, those dates and that reason too. -/
theorem index_promises (history : List (Publishing F)) (publishing : Publishing F)
    {answer : Except String Delivery}
    (h : (publishing.run digest A (lifetime digest A history).1).1.sent.index = some answer) :
    ∃ publication,
      (publishing.run digest A (lifetime digest A history).1).1.publication = some publication
        ∧ (∀ document ∈ publication.toSend,
          ∃ attempt ∈ (publishing.run digest A (lifetime digest A history).1).1.sent.documents,
            attempt.1 = document
              ∧ ∃ delivery, attempt.2 = .ok delivery ∧ delivery.isPublished = true)
        ∧ ∀ listed ∈ publication.index.documents,
          Taken digest A (history ++ [publishing]) listed.d listed.hash listed := by
  have hran := ran digest A publishing.surroundings publishing.command
    (lifetime digest A history).1
  change Ran _ _ _ _ _ (publishing.run digest A (lifetime digest A history).1) at hran
  obtain ⟨publication, keys, hprepared, hpublication, hdelivered⟩ := ran_index hran h
  obtain ⟨republish, -, rfl⟩ := hprepared.computed
  refine ⟨_, hpublication, fun document hsend => hdelivered.exists_taken hsend, ?_⟩
  intro listed hlisted
  change listed ∈ (compute digest A publishing.surroundings (lifetime digest A history).1
    republish publishing.command.now).snapshot.documents.map entry at hlisted
  rw [compute_documents, List.map_map] at hlisted
  obtain ⟨document, hdocument, rfl⟩ := List.mem_map.mp hlisted
  have htaken := entries_taken (earned digest A history) rfl hdelivered hdocument
  have hd : (entry (placedIn digest A publishing.surroundings (lifetime digest A history).1
      publishing.command.now document)).d = document.address.toString :=
    congrArg Address.toString against_address
  have hhash : (entry (placedIn digest A publishing.surroundings (lifetime digest A history).1
      publishing.command.now document)).hash = document.hash := against_hash
  rw [Function.comp_apply, hd, hhash]
  exact htaken

/-- What the first index names was taken. -/
theorem firstRun_promises : ∃ publication,
    (firstRun.run id Floats.whole (lifetime id Floats.whole []).1).1.publication
        = some publication
      ∧ ∀ listed ∈ publication.index.documents,
        Taken id Floats.whole ([] ++ [firstRun]) listed.d listed.hash listed := by
  have hran : Ran id Floats.whole firstRun.surroundings firstRun.command
      (lifetime id Floats.whole []).1
      (firstRun.run id Floats.whole (lifetime id Floats.whole []).1) :=
    ran _ _ _ _ _
  have hrecorded : (firstRun.run id Floats.whole
      (lifetime id Floats.whole []).1).1.recorded = some _ := firstRun_unhindered.run.1
  obtain ⟨delivery, hindex, -⟩ := (ran_taken hran).2.mp
    (Option.isSome_iff_exists.mpr ⟨_, hrecorded⟩)
  obtain ⟨publication, hpublication, -, htaken⟩ :=
    @index_promises _ id Floats.whole [] firstRun _ hindex
  exact ⟨publication, hpublication, htaken⟩

end Publish
