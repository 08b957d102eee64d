import Bestiario.Backfill
import Bestiario.Windowed

/-! # Clocks

    An event's clock is a `u64`, and a column holds an `i64`.  Every parser but one
    narrows with `as i64`, and so do the archive and the cursor; the rate parser
    refuses what does not fit.  A row that says its event's clock is ordered among
    the others as the events are, and a narrowed one is behind them all.

    * `clocks_kept_iff` — what is stored says its event's clock exactly when the
      clocks fit a signed second count. -/

namespace Clock

open Keyed Wire Parse Repo Pipeline Derived Rebuild
open History (stamp asI64_of_lt asI64_of_le)

variable {F : Type} {X : Externals F} {P : Policy} {db : Db F}

/-- The clock fits a signed 64-bit second count. -/
def Fits (e : Event) : Prop := stamp e < 2 ^ 63

/-- The narrowing keeps a clock that fits, and no other. -/
theorem at_eq_stamp_iff {e : Event} : e.at = stamp e ↔ Fits e := by
  constructor
  · intro hat
    by_contra hover
    have hneg : e.at < 0 := asI64_of_le (Nat.le_of_not_lt hover)
    have hnat : (0 : Int) ≤ stamp e := Int.natCast_nonneg _
    omega
  · intro hfits
    exact asI64_of_lt hfits

/-- `signed_at` is a guard: a sheet that is read has a clock that fits. -/
theorem parseRates_fits {e : Event} {sheet : RateSnapshot F} (h : parseRates X e = .ok sheet) :
    Fits e := by
  simp only [parseRates, bind_eq_ok] at h
  obtain ⟨_, -, identifier, -, h⟩ := h
  by_cases hd : identifier ≠ ratesIdentifier
  · rw [if_pos hd] at h
    cases h
  · rw [if_neg hd] at h
    simp only [bind_eq_ok] at h
    obtain ⟨createdAt, hsigned, -⟩ := h
    rw [signedAt] at hsigned
    by_contra hover
    have hlimit : ¬ e.createdAt.toNat < 2 ^ 63 := hover
    rw [if_neg hlimit] at hsigned
    cases hsigned

/-! ## What the rows say -/

/-- A row filed under an event's id says `t` is when the event was created. -/
inductive Stamped (db : Db F) (id : String) : Int → Prop where
  | event {row} (h : db.events[id]? = some row) : Stamped db id row.createdAt
  | orderVersion {row} (h : db.orderVersions[id]? = some row) : Stamped db id row.createdAt
  | devFee {row} (h : db.devFees[id]? = some row) : Stamped db id row.createdAt
  | disputeVersion {row} (h : db.disputeVersions[id]? = some row) : Stamped db id row.createdAt
  | info {row} (h : db.instanceInfo[id]? = some row) : Stamped db id row.createdAt

/-- Whatever the table, a row says the narrowed clock of an archived event. -/
theorem Stamped.narrowed (hset : Settled X db) {id : String} {t : Int} (h : Stamped db id t) :
    ∃ r, db.events[id]? = some r ∧ t = r.rawJson.at := by
  cases h with
  | @event row hrow =>
      refine ⟨row, hrow, ?_⟩
      obtain ⟨-, hnew⟩ := hset.tables.keyed id row hrow
      exact congrArg EventRecord.createdAt hnew
  | orderVersion hrow =>
      obtain ⟨r, hr, hread⟩ := hset.tables.orderVersions.sound id _ hrow
      exact ⟨r, hr, (readOrder_origin hread).2.2⟩
  | @devFee row hrow =>
      have hunflagged : (unflagged db.devFees)[id]? = some { row with isDuplicate := false } := by
        rw [unflagged, Std.ExtTreeMap.getElem?_map, hrow]
        rfl
      obtain ⟨r, hr, hread⟩ := hset.tables.devFees.sound id _ hunflagged
      exact ⟨r, hr, (readFee_origin hread).2.2⟩
  | disputeVersion hrow =>
      obtain ⟨r, hr, hread⟩ := hset.tables.disputeVersions.sound id _ hrow
      exact ⟨r, hr, (readDispute_origin hread).2.2⟩
  | info hrow =>
      obtain ⟨r, hr, hread⟩ := hset.tables.instanceInfo.sound id _ hrow
      exact ⟨r, hr, (readInfo_origin hread).2.2⟩

/-- Every row says its event's clock. -/
def Clocked (db : Db F) : Prop :=
  ∀ id t, Stamped db id t → ∃ r, db.events[id]? = some r ∧ t = stamp r.rawJson

/-- Rows compare as the clocks of their events do. -/
def Ordered (db : Db F) : Prop :=
  ∀ id t r, Stamped db id t → db.events[id]? = some r →
    ∀ id' t' r', Stamped db id' t' → db.events[id']? = some r' →
      (t ≤ t' ↔ stamp r.rawJson ≤ stamp r'.rawJson)

theorem Clocked.eq_stamp (h : Clocked db) {id : String} {t : Int} {r : EventRecord}
    (ht : Stamped db id t) (hr : db.events[id]? = some r) : t = stamp r.rawJson := by
  obtain ⟨s, hs, heq⟩ := h id t ht
  rw [hr] at hs
  exact Option.some.inj hs ▸ heq

theorem Clocked.ordered (h : Clocked db) : Ordered db := by
  intro id t r ht hr id' t' r' ht' hr'
  rw [h.eq_stamp ht hr, h.eq_stamp ht' hr']
  exact Int.ofNat_le

/-- The rows of a settled database say their events' clocks when these fit. -/
theorem clocked_iff (hset : Settled X db) :
    Clocked db ↔ ∀ (id : String) r, db.events[id]? = some r → Fits r.rawJson := by
  constructor
  · intro hclocked id r hr
    obtain ⟨s, hs, heq⟩ := Stamped.narrowed hset (.event hr)
    rw [hr] at hs
    cases hs
    have hstamp := hclocked.eq_stamp (.event hr) hr
    exact at_eq_stamp_iff.mp (heq.symm.trans hstamp)
  · intro hfits id t ht
    obtain ⟨r, hr, heq⟩ := Stamped.narrowed hset ht
    exact ⟨r, hr, heq.trans (at_eq_stamp_iff.mpr (hfits id r hr))⟩

/-! ## What a call writes -/

/-- How far the call's relay has been read for the event's kind. -/
def cursor (c : Call) (db : Db F) : Option Int :=
  (SyncState.get c.relayUrl c.event.kind db).map Cursor.lastCreatedAt

theorem cursor_advance (c : Call) (db : Db F) :
    cursor c (advance c db) = some (raised (cursor c db) c.event.at) := by
  rw [cursor, SyncState.get, advance, SyncState.advance, Std.ExtTreeMap.getElem?_insert_self,
    cursor, SyncState.get]
  cases db.syncState[toLex (c.relayUrl, c.event.kind)]? with
  | none => rfl
  | some old => rfl

/-- A call keeps the event's clock: a clock that does not fit is rejected, and what
    is stored, the cursor included, says the clock. -/
structure Keeps (X : Externals F) (P : Policy) (c : Call) (db : Db F) : Prop where
  rejected : ¬ Fits c.event → ∃ rejection, (ingest X P c db).1 = .rejected rejection
  rows : (ingest X P c db).1 = .stored → ∀ t, Stamped (ingest X P c db).2 c.event.id t →
    t = stamp c.event
  cursor : (ingest X P c db).1 = .stored →
    cursor c (ingest X P c db).2 = some (raised (cursor c db) (stamp c.event))

theorem Keeps.of_not_stored {c : Call} {outcome : IngestOutcome F}
    (hout : (ingest X P c db).1 = outcome) (hne : outcome ≠ .stored)
    (hrejected : ¬ Fits c.event → ∃ rejection, outcome = .rejected rejection) :
    Keeps X P c db := by
  subst hout
  exact ⟨hrejected, fun hstored => absurd hstored hne, fun hstored => absurd hstored hne⟩

/-- **STEP**: a call keeps the clock when the clock fits, or the event is refused
    for a reason of its own. -/
theorem keeps_iff (hset : Settled X db) (c : Call) :
    Keeps X P c db
      ↔ (Admitted X P c.event db → (∃ parsed, parse X c.event = .ok parsed) → Fits c.event) := by
  constructor
  · intro hkeeps hadmitted ⟨parsed, hparse⟩
    by_contra hover
    obtain ⟨rejection, hrejected⟩ := hkeeps.rejected hover
    obtain ⟨outcome, db', heq, hcases⟩ := ingest_cases X P c db
    rw [heq] at hrejected
    cases hcases with
    | turnedAway hno => exact hno hadmitted
    | unread _ hp => exact nomatch hp.symm.trans hparse
    | redundant _ _ _ => exact nomatch hrejected
    | duplicate _ _ _ _ => exact nomatch hrejected
    | stored _ _ _ _ => exact nomatch hrejected
  · intro hfits
    have hafter : Settled X (ingest X P c db).2 := ingest_settled c hset
    obtain ⟨outcome, db', heq, hcases⟩ := ingest_cases X P c db
    rw [heq] at hafter
    have hout : (ingest X P c db).1 = outcome := congrArg Prod.fst heq
    cases hcases with
    | turnedAway _ =>
        exact .of_not_stored hout (fun h => nomatch h) fun _ => ⟨_, rfl⟩
    | unread _ _ =>
        exact .of_not_stored hout (fun h => nomatch h) fun _ => ⟨_, rfl⟩
    | redundant ha hp _ =>
        exact .of_not_stored hout (fun h => nomatch h)
          fun hover => absurd (hfits ha ⟨_, hp⟩) hover
    | duplicate ha hp _ _ =>
        exact .of_not_stored hout (fun h => nomatch h)
          fun hover => absurd (hfits ha ⟨_, hp⟩) hover
    | @stored parsed ha hp _ hk =>
        have hclock : c.event.at = stamp c.event := at_eq_stamp_iff.mpr (hfits ha ⟨_, hp⟩)
        refine ⟨fun hover => absurd (hfits ha ⟨_, hp⟩) hover, fun _ t ht => ?_, fun _ => ?_⟩
        · -- The archived event under this id is the one just stored.
          rw [heq] at ht
          obtain ⟨r, hr, hat⟩ := Stamped.narrowed hafter ht
          have hevents := (persisted hp { db with
            events := db.events.insertIfNew c.event.id c.record }).events
          have hself : (advance c (persist X c.event parsed { db with
              events := db.events.insertIfNew c.event.id c.record })).events[c.event.id]?
              = some c.record := by
            rw [advance_events, hevents]
            exact archived_lookup c hk
          rw [hself] at hr
          cases hr
          exact hat.trans hclock
        · -- The cursor is raised to the same clock.
          have hsync := (persisted hp { db with
            events := db.events.insertIfNew c.event.id c.record }).syncState
          rw [heq, cursor_advance, hclock, cursor, cursor, SyncState.get, SyncState.get, hsync]

/-- **STORED CLOCKS ARE THE EVENTS' CLOCKS EXACTLY WHEN THESE FIT**: in the tables of
    every reachable database, which are then ordered as the events are, and in every
    call. -/
theorem clocks_kept_iff (h : Reachable X db) :
    (Clocked db ↔ ∀ (id : String) r, db.events[id]? = some r → Fits r.rawJson)
      ∧ (Clocked db → Ordered db)
      ∧ ∀ (P : Policy) (c : Call), Keeps X P c db
          ↔ (Admitted X P c.event db → (∃ parsed, parse X c.event = .ok parsed) → Fits c.event) :=
  ⟨clocked_iff h.settled, Clocked.ordered, fun _ c => keeps_iff h.settled c⟩

/-- An order's clock, in the tables of the database it was read into. -/
theorem clocks_kept_tradedOnce :
    Clocked Load.tradedOnce
      ↔ ∀ (id : String) r, Load.tradedOnce.events[id]? = some r → Fits r.rawJson :=
  (clocks_kept_iff Load.reachable_tradedOnce).1

/-- An order whose clock is the first second that does not fit. -/
def farOrder : Event :=
  { Load.taggedOrder with
    id := "5000000000000000000000000000000000000000000000000000000000000002"
    createdAt := 9223372036854775808 }

def farFuture : Call := ⟨farOrder, "wss://a", 1785603601⟩

def far : Externals Int := Externals.over [farOrder] (by decide) []

/-- **A CLOCK THAT DOES NOT FIT IS STORED**, negative, in the archive, in the version
    and in the cursor. -/
theorem far_clock_narrowed :
    (ingest far Convergence.openPolicy farFuture Db.empty).1 = .stored
      ∧ ((ingest far Convergence.openPolicy farFuture Db.empty).2.events[farOrder.id]?).map
          EventRecord.createdAt = some (-9223372036854775808)
      ∧ ((ingest far Convergence.openPolicy farFuture Db.empty).2.orderVersions[farOrder.id]?).map
          OrderVersionRow.createdAt = some (-9223372036854775808)
      ∧ cursor farFuture (ingest far Convergence.openPolicy farFuture Db.empty).2
          = some (-9223372036854775808)
      ∧ ¬ Keeps far Convergence.openPolicy farFuture Db.empty := by
  have hstored : (ingest far Convergence.openPolicy farFuture Db.empty).1 = .stored := by
    decide +kernel
  refine ⟨hstored, by decide +kernel, by decide +kernel, by decide +kernel, fun hkeeps => ?_⟩
  have hover : ¬ Fits farOrder := by
    unfold Fits stamp
    decide
  obtain ⟨rejection, hrejected⟩ := hkeeps.rejected hover
  exact nomatch hstored.symm.trans hrejected

end Clock
