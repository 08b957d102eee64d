import Bestiario.Rebuild
import Bestiario.Retention
import Bestiario.Sync

/-! # The last sign of life

    `instances.last_seen_at` moves with every event the pipeline takes, the
    heartbeats it does not archive included.  A rebuild has only the archive to
    go by, so it sets the column back to the newest event archived.  How far
    back that is depends on what was left out of the archive: an announcement
    repeated unchanged for a month moves the column for a month.

    `newest` is what a rebuild leaves (`lastSeen_rebuild`), and a step that
    leaves the hour is one the condition names (`within_ingest_iff`). -/

namespace Sightings

open Keyed Wire Parse Repo Pipeline Derived Rebuild

variable {F : Type} {X : Externals F} {P : Policy}

/-! ## What the row says and what the archive says -/

/-- `last_seen_at`, while the publisher has a row. -/
def lastSeen (pubkey : String) (db : Db F) : Option Int :=
  (db.instances[pubkey]?).map Instance.lastSeenAt

/-- The publisher's events that the parsers read. -/
def readable (X : Externals F) (pubkey : String) (r : EventRecord) : Bool :=
  r.rawJson.pubkey == pubkey && (parse X r.rawJson).isOk

/-- The stamp of the newest of them in the archive. -/
def newest (X : Externals F) (pubkey : String) (db : Db F) : Option Int :=
  maximum (fun r => some r.rawJson.at) db.events (readable X pubkey)

/-- A rebuild would set no row back by more than an hour. -/
def Within (X : Externals F) (fromRaw : Bool) (db : Db F) : Prop :=
  ∀ pubkey last, lastSeen pubkey db = some last →
    ∃ kept, lastSeen pubkey (rebuild X fromRaw db).2 = some kept ∧ last - 3600 ≤ kept

/-- The condition on a call: a heartbeat taken and not archived is stamped no more
    than an hour after the newest event of its publisher that is. -/
def Meets (X : Externals F) (P : Policy) (c : Call) (db : Db F) : Prop :=
  Admitted X P c.event db → ∀ parsed, parse X c.event = .ok parsed →
    Heartbeats.isRedundant c.event (parsedHeartbeat parsed) db = true →
      ∃ kept, newest X c.event.pubkey db = some kept ∧ c.event.at - 3600 ≤ kept

/-! ## A sighting -/

theorem lastSeen_congr {db db' : Db F} (h : db'.instances = db.instances) (pubkey : String) :
    lastSeen pubkey db' = lastSeen pubkey db := by
  rw [lastSeen, lastSeen, h]

theorem lastSeen_upsert (pubkey seen : String) (name : Option String) (publishedAt : Int)
    (db : Db F) :
    lastSeen pubkey (Instances.upsert seen name publishedAt db)
      = if seen = pubkey then some (raised (lastSeen pubkey db) publishedAt)
        else lastSeen pubkey db := by
  rw [lastSeen, Instances.upsert, getElem?_insert_eq]
  by_cases hseen : seen = pubkey
  · subst hseen
    rw [if_pos rfl, if_pos rfl, lastSeen]
    cases hrow : db.instances[seen]? with
    | none => rfl
    | some old =>
        cases name with
        | none => simp [Instances.merged, raised]
        | some name =>
            cases hat : old.nameSeenAt with
            | none => simp [Instances.merged, raised, hat]
            | some at' =>
                simp only [Instances.merged, hat, raised, Option.map_some]
                split
                · rfl
                · rfl
  · rw [if_neg hseen, if_neg hseen]
    rfl

/-- Whatever else is written of an event, it is one sign of life. -/
theorem lastSeen_persist (pubkey : String) (e : Event) (parsed : Parsed F) (db : Db F) :
    lastSeen pubkey (persist X e parsed db)
      = if e.pubkey = pubkey then some (raised (lastSeen pubkey db) e.at)
        else lastSeen pubkey db := by
  have hsighted : (sighted e db).instances
      = (Instances.upsert e.pubkey (instanceName e) e.at db).instances := by
    rw [sighted]
    cases instanceName e with
    | none => rfl
    | some name => rfl
  rw [lastSeen_congr ((persist_bestiary e parsed db).1.trans hsighted), lastSeen_upsert]

/-! ## What a rebuild leaves -/

theorem newest_eq_some_iff {pubkey : String} {db : Db F} {stamp : Int} :
    newest X pubkey db = some stamp
      ↔ (∃ (k : String) (r : EventRecord), db.events[k]? = some r
          ∧ readable X pubkey r = true ∧ r.rawJson.at = stamp)
        ∧ ∀ (k : String) (r : EventRecord), db.events[k]? = some r →
          readable X pubkey r = true → r.rawJson.at ≤ stamp := by
  rw [newest, maximum_eq_some_iff]
  refine and_congr ?_ ⟨fun h k r hk hr => h k r _ hk hr rfl, fun h k r at' hk hr heq => ?_⟩
  · simp only [Option.some.injEq]
  · cases heq
    exact h k r hk hr

/-- The loop of the replay: the newest event of the publisher, or what was there. -/
theorem lastSeen_replayAll (pubkey : String) (records : List EventRecord) (db : Db F) :
    lastSeen pubkey (records.foldl (fun db r => (Pipeline.replay X r.rawJson db).2) db)
      = ((lastSeen pubkey db).toList
          ++ (records.filter (readable X pubkey)).map fun r => r.rawJson.at).max? := by
  induction records using List.reverseRecOn with
  | nil =>
      rw [List.filter_nil, List.map_nil, List.append_nil, List.foldl_nil]
      cases lastSeen pubkey db with
      | none => rfl
      | some last => rfl
  | append_singleton records r ih =>
      rw [List.foldl_append, List.foldl_cons, List.foldl_nil, List.filter_append, List.map_append,
        ← List.append_assoc]
      generalize records.foldl (fun db r => (Pipeline.replay X r.rawJson db).2) db = replayed at ih
      rw [Pipeline.replay]
      cases hparse : parse X r.rawJson with
      | error rejection =>
          have hout : readable X pubkey r = false := by
            rw [readable, hparse]
            exact Bool.and_false _
          rw [List.filter_cons_of_neg (by rw [hout]; exact Bool.false_ne_true), List.filter_nil,
            List.map_nil, List.append_nil]
          exact ih
      | ok parsed =>
          have hin : readable X pubkey r = (r.rawJson.pubkey == pubkey) := by
            rw [readable, hparse]
            exact Bool.and_true _
          show lastSeen pubkey (persist X r.rawJson parsed replayed) = _
          rw [lastSeen_persist, ih]
          by_cases hours : r.rawJson.pubkey = pubkey
          · rw [if_pos hours,
              List.filter_cons_of_pos (by rw [hin, hours]; exact beq_self_eq_true _),
              List.filter_nil, List.map_singleton, Sync.max?_concat]
            cases ((lastSeen pubkey db).toList
              ++ (records.filter (readable X pubkey)).map fun r => r.rawJson.at).max? with
            | none => rfl
            | some last => rfl
          · rw [if_neg hours, List.filter_cons_of_neg (by rw [hin]; simpa using hours),
              List.filter_nil, List.map_nil, List.append_nil]

/-- **WHAT A REBUILD LEAVES** of the last sign of life: the newest event archived. -/
theorem lastSeen_rebuild (pubkey : String) (fromRaw : Bool) (db : Db F) :
    lastSeen pubkey (rebuild X fromRaw db).2 = newest X pubkey db := by
  obtain ⟨hevents, -, -, -, hinstances, -⟩ := clear_columns fromRaw db
  have hswept : (rebuild X fromRaw db).2.instances = (replayed X fromRaw db).instances := by
    rw [rebuild_snd]
    exact swept_frame Db.instances (fun _ _ => rfl) (fun _ _ => rfl) (fun _ _ => rfl) _
  have hcleared : lastSeen pubkey (clearProjections (clearRaw fromRaw db)) = none := by
    rw [lastSeen, hinstances]
    rfl
  refine Option.ext fun stamp => ?_
  rw [lastSeen_congr hswept, replayed, lastSeen_replayAll, hcleared, all_congr hevents,
    Option.toList_none, List.nil_append, List.max?_eq_some_iff, newest_eq_some_iff]
  simp only [List.mem_map, List.mem_filter, Events.all, mem_rowsBy, and_true]
  constructor
  · rintro ⟨⟨r, ⟨⟨k, hk⟩, hr⟩, hat⟩, hle⟩
    exact ⟨⟨k, r, hk, hr, hat⟩, fun a w ha hw => hle _ ⟨w, ⟨⟨a, ha⟩, hw⟩, rfl⟩⟩
  · rintro ⟨⟨k, r, hk, hr, hat⟩, hle⟩
    refine ⟨⟨r, ⟨⟨k, hk⟩, hr⟩, hat⟩, ?_⟩
    rintro _ ⟨w, ⟨⟨a, ha⟩, hw⟩, rfl⟩
    exact hle a w ha hw

theorem within_iff {fromRaw : Bool} {db : Db F} :
    Within X fromRaw db ↔ ∀ pubkey last, lastSeen pubkey db = some last →
      ∃ kept, newest X pubkey db = some kept ∧ last - 3600 ≤ kept := by
  simp only [Within, lastSeen_rebuild]

/-! ## One call -/

/-- An event in the archive is no newer than the newest. -/
theorem newest_ge {pubkey k : String} {db : Db F} {r : EventRecord}
    (hk : db.events[k]? = some r) (hr : readable X pubkey r = true) :
    ∃ kept, newest X pubkey db = some kept ∧ r.rawJson.at ≤ kept := by
  cases hnew : newest X pubkey db with
  | none => exact nomatch maximum_eq_none_iff.mp hnew k r hk hr
  | some kept => exact ⟨kept, rfl, (newest_eq_some_iff.mp hnew).2 k r hk hr⟩

/-- An archive that grows has a newer newest. -/
theorem newest_mono {pubkey : String} {db db' : Db F} {kept : Int}
    (hgrows : ∀ (k : String) (r : EventRecord), db.events[k]? = some r → db'.events[k]? = some r)
    (h : newest X pubkey db = some kept) :
    ∃ kept', newest X pubkey db' = some kept' ∧ kept ≤ kept' := by
  obtain ⟨⟨k, r, hk, hr, rfl⟩, -⟩ := newest_eq_some_iff.mp h
  exact newest_ge (hgrows k r hk) hr

/-- What a row is raised to is within the hour when what it held and what came are. -/
theorem raised_within {old : Option Int} {stamp kept : Int} (hstamp : stamp - 3600 ≤ kept)
    (hold : ∀ last, old = some last → last - 3600 ≤ kept) :
    raised old stamp - 3600 ≤ kept := by
  cases old with
  | none => exact hstamp
  | some last =>
      have hlast := hold last rfl
      show max last stamp - 3600 ≤ kept
      omega

/-- What came is never past what the row is raised to. -/
theorem le_raised (old : Option Int) (stamp : Int) : stamp ≤ raised old stamp := by
  cases old with
  | none => exact le_refl _
  | some last => exact le_max_right _ _

/-- When every row was within the hour and one is raised, they all still are exactly
    when what came is within the hour of the newest archived. -/
theorem forall_raised_iff {pubkey : String} {stamp : Int} {db db' : Db F}
    (hrow : ∀ p, lastSeen p db' = if pubkey = p then some (raised (lastSeen p db) stamp)
      else lastSeen p db)
    (hkept : ∀ p last, lastSeen p db = some last →
      ∃ kept, newest X p db' = some kept ∧ last - 3600 ≤ kept) :
    (∀ p last, lastSeen p db' = some last →
        ∃ kept, newest X p db' = some kept ∧ last - 3600 ≤ kept)
      ↔ ∃ kept, newest X pubkey db' = some kept ∧ stamp - 3600 ≤ kept := by
  constructor
  · intro hafter
    obtain ⟨kept, hnew, hle⟩ := hafter pubkey _ ((hrow pubkey).trans (if_pos rfl))
    exact ⟨kept, hnew, (Int.sub_le_sub_right (le_raised _ stamp) 3600).trans hle⟩
  · rintro ⟨kept, hnew, hle⟩ p last hlast
    rw [hrow] at hlast
    by_cases hours : pubkey = p
    · subst hours
      rw [if_pos rfl, Option.some.injEq] at hlast
      subst hlast
      refine ⟨kept, hnew, raised_within hle fun old hold => ?_⟩
      obtain ⟨kept', hnew', hle'⟩ := hkept pubkey old hold
      cases hnew.symm.trans hnew'
      exact hle'
    · rw [if_neg hours] at hlast
      exact hkept p last hlast

/-- An event that is archived is within the hour of the newest archived. -/
theorem newest_of_stored {c : Call} {parsed : Parsed F} {db : Db F}
    (hp : parse X c.event = .ok parsed) (harchived : db.events[c.event.id]? = some c.record) :
    ∃ kept, newest X c.event.pubkey db = some kept ∧ c.event.at - 3600 ≤ kept := by
  have hreadable : readable X c.event.pubkey c.record = true := by
    show (c.event.pubkey == c.event.pubkey && (parse X c.event).isOk) = true
    rw [hp, beq_self_eq_true]
    rfl
  obtain ⟨kept, hnew, hle⟩ := newest_ge harchived hreadable
  replace hle : c.event.at ≤ kept := hle
  exact ⟨kept, hnew, by omega⟩

/-- **STEP**: a call takes no row out of the hour exactly when it meets its condition. -/
theorem within_ingest_iff {c : Call} {fromRaw : Bool} {db : Db F} (h : Within X fromRaw db) :
    Within X fromRaw (ingest X P c db).2 ↔ Meets X P c db := by
  have hgrows : ∀ (k : String) (r : EventRecord), db.events[k]? = some r →
      (ingest X P c db).2.events[k]? = some r := fun k r hk => ingest_events_mono P c hk
  rw [within_iff] at h
  -- Rows nothing was written to stay within the hour of a newest that only grows.
  have hkept : ∀ pubkey last, lastSeen pubkey db = some last →
      ∃ kept, newest X pubkey (ingest X P c db).2 = some kept ∧ last - 3600 ≤ kept := by
    intro pubkey last hlast
    obtain ⟨kept, hnew, hle⟩ := h pubkey last hlast
    obtain ⟨kept', hnew', hle'⟩ := newest_mono hgrows hnew
    exact ⟨kept', hnew', hle.trans hle'⟩
  rw [within_iff]
  obtain ⟨outcome, out, heq, hcases⟩ := ingest_cases X P c db
  rw [heq] at hkept ⊢
  dsimp only at hkept ⊢
  cases hcases with
  | turnedAway hno => exact iff_of_true hkept fun hadmitted => absurd hadmitted hno
  | unread _ hp =>
      exact iff_of_true hkept fun _ parsed hok => nomatch hp.symm.trans hok
  | duplicate _ hp hr _ =>
      refine iff_of_true hkept fun _ parsed hok hredundant => ?_
      cases hp.symm.trans hok
      exact nomatch hr.symm.trans hredundant
  | @redundant parsed hadmitted hp hr =>
      -- The row is raised and the archive is as it was.
      have hrow : ∀ p, lastSeen p (advance c (Instances.upsert c.event.pubkey none c.event.at db))
          = if c.event.pubkey = p then some (raised (lastSeen p db) c.event.at)
            else lastSeen p db := fun p => lastSeen_upsert p _ none _ db
      rw [forall_raised_iff hrow hkept]
      constructor
      · intro hnew _ _ _ _
        exact hnew
      · intro hmeets
        exact hmeets hadmitted parsed hp hr
  | @stored parsed _ hp hr hk =>
      -- The row is raised to an event that is in the archive by then.
      have hrow : ∀ p, lastSeen p (advance c (persist X c.event parsed
            { db with events := db.events.insertIfNew c.event.id c.record }))
          = if c.event.pubkey = p then some (raised (lastSeen p db) c.event.at)
            else lastSeen p db := fun p => lastSeen_persist p c.event parsed _
      have harchived : (advance c (persist X c.event parsed
          { db with events := db.events.insertIfNew c.event.id c.record })).events[c.event.id]?
            = some c.record := by
        show (persist X c.event parsed _).events[c.event.id]? = _
        rw [(persisted hp _).events]
        exact archived_lookup c hk
      refine iff_of_true ((forall_raised_iff hrow hkept).mpr (newest_of_stored hp harchived))
        fun _ parsed' hok hredundant => ?_
      cases hp.symm.trans hok
      exact nomatch hr.symm.trans hredundant

/-! ## Any run -/

theorem within_empty (fromRaw : Bool) : Within X fromRaw (Db.empty : Db F) :=
  fun _ _ h => nomatch h

/-- **A REBUILD SETS NO ROW BACK BY MORE THAN AN HOUR EXACTLY WHEN** every heartbeat
    left out of the archive came within an hour of one that is in it.  The bound
    holds after each of any calls iff every call meets that condition. -/
theorem last_seen_within_hour_iff (X : Externals F) (P : Policy) (fromRaw : Bool)
    (calls : List Call) :
    (∀ before rest, calls = before ++ rest →
        Within X fromRaw (ingestAll X P before (Db.empty : Db F)))
      ↔ ∀ before c rest, calls = before ++ c :: rest →
        Meets X P c (ingestAll X P before (Db.empty : Db F)) := by
  have hconcat : ∀ before c, ingestAll X P (before ++ [c]) (Db.empty : Db F)
      = (ingest X P c (ingestAll X P before Db.empty)).2 := by
    intro before c
    rw [ingestAll, List.foldl_append]
    rfl
  constructor
  · intro h before c rest heq
    have hnow := h before (c :: rest) heq
    have hnext := h (before ++ [c]) rest (by rw [heq, List.append_assoc, List.singleton_append])
    rw [hconcat] at hnext
    exact (within_ingest_iff hnow).mp hnext
  · intro h before
    induction before using List.reverseRecOn with
    | nil => exact fun _ _ => within_empty fromRaw
    | append_singleton before c ih =>
        intro rest heq
        have hsplit : calls = before ++ c :: rest := by
          rw [heq, List.append_assoc, List.singleton_append]
        rw [hconcat]
        exact (within_ingest_iff (ih (c :: rest) hsplit)).mpr (h before c rest hsplit)

/-! ## A heartbeat that says nothing new -/

/-- The same announcement a week after `firstInfo`. -/
def weekLater : Event :=
  Retention.infoEvent "3000000000000000000000000000000000000000000000000000000000000009"
    Convergence.alice 1786204800 "0"

def heartbeats : Externals Int :=
  Externals.over [Retention.firstInfo, weekLater] (by decide) []

/-- The database when both have arrived. -/
def unchanged : Db Int :=
  ingestAll heartbeats Convergence.openPolicy
    [⟨Retention.firstInfo, "wss://a", 1785600000⟩, ⟨weekLater, "wss://a", 1786204800⟩] Db.empty

/-- **A WEEK IS LOST**: the second announcement moved the row and was not archived. -/
theorem week_set_back :
    lastSeen Convergence.alice unchanged = some 1786204800 ∧
      (∀ fromRaw, lastSeen Convergence.alice (rebuild heartbeats fromRaw unchanged).2
        = some 1785600000) ∧
      ∀ fromRaw, ¬ Within heartbeats fromRaw unchanged := by
  have hbefore : lastSeen Convergence.alice unchanged = some 1786204800 := by decide +kernel
  have hafter : newest heartbeats Convergence.alice unchanged = some 1785600000 := by
    decide +kernel
  refine ⟨hbefore, fun fromRaw => (lastSeen_rebuild _ fromRaw _).trans hafter, ?_⟩
  intro fromRaw h
  obtain ⟨kept, hkept, hle⟩ := within_iff.mp h _ _ hbefore
  cases hafter.symm.trans hkept
  exact absurd hle (by decide)

end Sightings
