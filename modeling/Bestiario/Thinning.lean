import Bestiario.RateBook
import Bestiario.Convergence

/-! # What thinning does to the rate lookup

    Step 6a keeps one snapshot per publisher and clock hour; `rate_at` takes a
    snapshot at most five minutes old.  Over every run, `rates` holds exactly
    the snapshots that came FIRST in their hour, and the full book prices an
    instant iff some snapshot received is usable there.

    So the stored book prices what the full one does exactly when every other
    snapshot is BRIDGED by two that came first. -/

namespace Thinning

open Keyed Wire Parse Repo Pipeline Derived RateBook

variable {F : Type} {X : Externals F} {P : Policy}

/-! ## A parsed snapshot's clock -/

/-- A snapshot is published at a time that fits an `i64`, never before the
    epoch. -/
theorem publishedAt_bounds {e : Event} {row : RateSnapshot F}
    (h : readRates X e = some row) : 0 ≤ row.publishedAt ∧ row.publishedAt < 2 ^ 63 := by
  have hparse := parse_rates (readRates_eq_some.mp h)
  simp only [parseRates, bind_eq_ok] at hparse
  obtain ⟨_, -, identifier, -, hparse⟩ := hparse
  by_cases hd : identifier ≠ ratesIdentifier
  · rw [if_pos hd] at hparse
    cases hparse
  · rw [if_neg hd] at hparse
    simp only [bind_eq_ok] at hparse
    obtain ⟨createdAt, hsigned, publishedAt, hpublished, _, -, _, -, hrow⟩ := hparse
    cases hrow
    show 0 ≤ publishedAt ∧ publishedAt < 2 ^ 63
    have hclock : 0 ≤ createdAt ∧ createdAt < 2 ^ 63 := by
      rw [signedAt] at hsigned
      by_cases hfits : e.createdAt.toNat < 2 ^ 63
      · rw [if_pos hfits] at hsigned
        cases hsigned
        exact ⟨Int.natCast_nonneg _, by exact_mod_cast hfits⟩
      · rw [if_neg hfits] at hsigned
        cases hsigned
    rw [ratesPublishedAt, bind_eq_ok] at hpublished
    obtain ⟨claim, -, hpublished⟩ := hpublished
    cases claim with
    | none =>
        cases hpublished
        exact hclock
    | some value =>
        simp only [bind_eq_ok] at hpublished
        obtain ⟨n, hn, m, hm, hnear⟩ := hpublished
        have hbounds := nonNegative_bounds hn hm
        rw [near] at hnear
        split at hnear
        · cases hnear
        · cases hnear
          exact hbounds

/-! ## What was received, and what comes first in its hour -/

/-- The snapshot `c` brings, if it is admitted and reads as one. -/
def brought (X : Externals F) (P : Policy) (c : Call) (db : Db F) :
    Option (RateSnapshot F) :=
  match admission X P c.event, vouchedFor P c.event db with
  | none, none => readRates X c.event
  | _, _ => none

/-- One call: what it brings, and the database it leaves. -/
def receive (X : Externals F) (P : Policy) (state : List (RateSnapshot F) × Db F)
    (c : Call) : List (RateSnapshot F) × Db F :=
  (state.1 ++ (brought X P c state.2).toList, (ingest X P c state.2).2)

/-- The snapshots admitted, in order of arrival, kept or not. -/
def received (X : Externals F) (P : Policy) (calls : List Call) : List (RateSnapshot F) :=
  (calls.foldl (receive X P) ([], Db.empty)).1

/-- The snapshots ingest left in `rates`. -/
def stored (X : Externals F) (P : Policy) (calls : List Call) : List (RateSnapshot F) :=
  rowsBy (ascAsc RateSnapshot.publishedAt RateSnapshot.eventId)
    (ingestAll X P calls Db.empty).rates fun _ => true

/-- `earlier` takes the place of `s` under the retention rule: another event of
    the same publisher, in the hour of `s`. -/
def SameHour (earlier s : RateSnapshot F) : Prop :=
  earlier.pubkey = s.pubkey
    ∧ Heartbeats.bucketOf s.publishedAt ≤ earlier.publishedAt
    ∧ earlier.publishedAt
      < wrapI64 (Heartbeats.bucketOf s.publishedAt + Heartbeats.ratesBucketSecs)
    ∧ earlier.eventId ≠ s.eventId

/-- `s` arrived before any other snapshot of its publisher and hour. -/
def HourFirst (snapshots : List (RateSnapshot F)) (s : RateSnapshot F) : Prop :=
  ∃ before after, snapshots = before ++ s :: after ∧ ∀ r ∈ before, ¬ SameHour r s

/-- `s` carries a price for `fiat`. -/
def Quotes (s : RateSnapshot F) (fiat : String) : Prop := (s.rates[fiat]?).isSome = true

/-- Every instant priced by what was received is priced by what was stored. -/
def StillPriced (X : Externals F) (P : Policy) (calls : List Call) : Prop :=
  ∀ pubkey fiat t, -2 ^ 63 ≤ t → t < 2 ^ 63 →
    ((Book.new ((received X P calls).map Snapshot.of)).rateAt pubkey fiat t).isSome →
      ((Book.new ((stored X P calls).map Snapshot.of)).rateAt pubkey fiat t).isSome

/-- A snapshot that is not the first of its hour stands, for every currency it
    quotes, between two that are, at most 301 seconds apart. -/
def Bridged (snapshots : List (RateSnapshot F)) : Prop :=
  ∀ s ∈ snapshots, ¬ HourFirst snapshots s → ∀ fiat, Quotes s fiat →
    ∃ a b, HourFirst snapshots a ∧ HourFirst snapshots b ∧ Quotes a fiat ∧ Quotes b fiat
      ∧ a.publishedAt ≤ s.publishedAt ∧ s.publishedAt ≤ b.publishedAt
      ∧ b.publishedAt - a.publishedAt ≤ 301

/-! ## The hour rule -/

section Hour

variable {r s : RateSnapshot F}

theorem bucketOf_spec (n : Int) : ∃ h : Int, Heartbeats.bucketOf n = 3600 * h
    ∧ 3600 * h ≤ n ∧ n < 3600 * h + 3600 := by
  refine ⟨n / 3600, ?_⟩
  have hmod : n.emod Heartbeats.ratesBucketSecs = n % 3600 := rfl
  rw [Heartbeats.bucketOf, hmod]
  omega

theorem sameHour_iff (hs : 0 ≤ s.publishedAt) (hs' : s.publishedAt < 2 ^ 63) :
    SameHour r s ↔ r.pubkey = s.pubkey
      ∧ Heartbeats.bucketOf r.publishedAt = Heartbeats.bucketOf s.publishedAt
      ∧ Heartbeats.bucketOf s.publishedAt + Heartbeats.ratesBucketSecs < 2 ^ 63
      ∧ r.eventId ≠ s.eventId := by
  obtain ⟨hour, hbucket, hlo, hhi⟩ := bucketOf_spec r.publishedAt
  obtain ⟨hour', hbucket', hlo', hhi'⟩ := bucketOf_spec s.publishedAt
  have hsecs : Heartbeats.ratesBucketSecs = 3600 := rfl
  rw [SameHour, hbucket, hbucket', hsecs]
  refine and_congr_right fun _ => ?_
  rw [← and_assoc, ← and_assoc]
  refine and_congr_left fun _ => ?_
  by_cases hfits : 3600 * hour' + 3600 < 2 ^ 63
  · rw [wrapI64_of_fits (by omega) hfits]
    omega
  · -- The end of the hour does not fit: the window read is empty.
    rw [wrapI64_of_over (not_lt.mp hfits) (by omega)]
    omega

theorem hourFirst_append_iff {L : List (RateSnapshot F)} {row : RateSnapshot F} :
    HourFirst (L ++ [s]) row ↔ HourFirst L row ∨ row = s ∧ ∀ r ∈ L, ¬ SameHour r s := by
  constructor
  · rintro ⟨before, after, heq, hfirst⟩
    rcases List.eq_nil_or_concat after with rfl | ⟨rest, last, rfl⟩
    · obtain ⟨rfl, hlast⟩ := List.append_inj' heq rfl
      cases hlast
      exact Or.inr ⟨rfl, hfirst⟩
    · refine Or.inl ⟨before, rest, ?_, hfirst⟩
      rw [List.concat_eq_append, ← List.cons_append, ← List.append_assoc] at heq
      exact (List.append_inj' heq rfl).1
  · rintro (⟨before, after, rfl, hfirst⟩ | ⟨rfl, hfirst⟩)
    · exact ⟨before, after ++ [s], by simp, hfirst⟩
    · exact ⟨L, [], rfl, hfirst⟩

theorem HourFirst.mem {L : List (RateSnapshot F)} (h : HourFirst L s) : s ∈ L := by
  obtain ⟨before, after, rfl, -⟩ := h
  exact List.mem_append_right before (List.mem_cons_self ..)

/-- Of the snapshots with a property that passes to whoever takes their place,
    one came first in its hour. -/
theorem exists_hourFirst {L : List (RateSnapshot F)} {q : RateSnapshot F → Prop}
    (hq : ∀ r ∈ L, ∀ s ∈ L, SameHour r s → q s → q r) (hr : r ∈ L) (hqr : q r) :
    ∃ a, HourFirst L a ∧ q a := by
  induction L using List.reverseRecOn generalizing r with
  | nil => exact nomatch hr
  | append_singleton L s ih =>
      have hqL : ∀ r ∈ L, ∀ s ∈ L, SameHour r s → q s → q r := fun r hr s hs =>
        hq r (List.mem_append_left _ hr) s (List.mem_append_left _ hs)
      by_cases hold : ∃ a ∈ L, q a
      · obtain ⟨a, ha, hqa⟩ := hold
        obtain ⟨b, hb, hqb⟩ := ih hqL ha hqa
        exact ⟨b, hourFirst_append_iff.mpr (Or.inl hb), hqb⟩
      · rcases List.mem_append.mp hr with hr | hr
        · exact absurd ⟨r, hr, hqr⟩ hold
        · obtain rfl : r = s := List.mem_singleton.mp hr
          refine ⟨r, hourFirst_append_iff.mpr (Or.inr ⟨rfl, fun a ha hsame => ?_⟩), hqr⟩
          exact hold ⟨a, ha, hq a (List.mem_append_left _ ha) r
            (List.mem_append_right _ hr) hsame hqr⟩

end Hour

/-! ## What is stored is what came first -/

/-- The snapshots received, beside the database they left. -/
structure Received (X : Externals F) (P : Policy) (L : List (RateSnapshot F))
    (db : Db F) : Prop where
  settled : Settled X db
  admitted : ∀ (k : String) r, db.events[k]? = some r → admission X P r.rawJson = none
  source : ∀ s ∈ L, ∃ e, admission X P e = none ∧ readRates X e = some s
  first : ∀ row, (∃ k : String, db.rates[k]? = some row) ↔ HourFirst L row

/-- Two admitted events with one id are one snapshot. -/
theorem read_unique {e e' : Event} (he : admission X P e = none) (he' : admission X P e' = none)
    (hid : e.id = e'.id) : readRates X e = readRates X e' := by
  rw [readRates, readRates, parse_eq_of_id (verify_of_admission he) (verify_of_admission he') hid]

theorem brought_of_admitted {c : Call} {db : Db F} (h : Admitted X P c.event db) :
    brought X P c db = readRates X c.event := by
  rw [brought, h.admission, h.vouched]

theorem brought_of_not {c : Call} {db : Db F} (h : ¬ Admitted X P c.event db) :
    brought X P c db = none := by
  rw [brought]
  cases ha : admission X P c.event with
  | some _ => rfl
  | none =>
      cases hv : vouchedFor P c.event db with
      | some _ => rfl
      | none => exact absurd ⟨ha, hv⟩ h

namespace Received

variable {L : List (RateSnapshot F)} {db : Db F}

theorem bounds (h : Received X P L db) {s : RateSnapshot F} (hs : s ∈ L) :
    0 ≤ s.publishedAt ∧ s.publishedAt < 2 ^ 63 := by
  obtain ⟨e, -, hread⟩ := h.source s hs
  exact publishedAt_bounds hread

/-- Under one id there is one snapshot. -/
theorem eq_of_id (h : Received X P L db) {e : Event} {r s : RateSnapshot F} (hr : r ∈ L)
    (he : admission X P e = none) (hread : readRates X e = some s)
    (hid : r.eventId = s.eventId) : r = s := by
  obtain ⟨e', he', hread'⟩ := h.source r hr
  have hids : e'.id = e.id := by
    rw [← (readRates_origin hread').1, ← (readRates_origin hread).1, hid]
  rw [read_unique he' he hids, hread] at hread'
  exact (Option.some.inj hread').symm

/-- A snapshot archived under `e`'s id is the one `e` brings, and came first. -/
theorem first_of_archived (h : Received X P L db) {e : Event} {s : RateSnapshot F}
    {r : EventRecord} (he : admission X P e = none) (hread : readRates X e = some s)
    (hk : db.events[e.id]? = some r) : HourFirst L s := by
  refine (h.first s).mp ⟨e.id, h.settled.tables.rates.complete _ r s hk ?_ id⟩
  rw [read_unique (h.admitted _ r hk) he (h.settled.tables.rawJson_id hk), hread]

/-- **THE QUERY SEES THE FIRST OF THE HOUR**: a snapshot is redundant when one
    received before it, and kept, takes its place. -/
theorem isRedundant_iff (h : Received X P L db) {e : Event} {s : RateSnapshot F}
    (hread : readRates X e = some s) :
    Heartbeats.isRedundant e (.rates s.publishedAt) db = true
      ↔ ∃ r, HourFirst L r ∧ SameHour r s := by
  obtain ⟨hid, hpubkey⟩ := readRates_origin hread
  rw [Heartbeats.isRedundant, Bool.not_eq_true', List.isEmpty_eq_false_iff_exists_mem]
  constructor
  · rintro ⟨r, hr⟩
    obtain ⟨hin, hsel⟩ := mem_rows.mp hr
    simp only [Bool.and_eq_true, beq_iff_eq, decide_eq_true_iff, bne_iff_ne] at hsel
    obtain ⟨⟨⟨hp, hlo⟩, hhi⟩, hne⟩ := hsel
    exact ⟨r, (h.first r).mp hin, hp.trans hpubkey.symm, hlo, hhi, hid ▸ hne⟩
  · rintro ⟨r, hfirst, hp, hlo, hhi, hne⟩
    refine ⟨r, mem_rows.mpr ⟨(h.first r).mpr hfirst, ?_⟩⟩
    simp only [Bool.and_eq_true, beq_iff_eq, decide_eq_true_iff, bne_iff_ne]
    exact ⟨⟨⟨hp.trans hpubkey, hlo⟩, hhi⟩, hid ▸ hne⟩

/-- A snapshot kept is archived under its own id. -/
theorem archived_of_first (h : Received X P L db) {s : RateSnapshot F}
    (hs : HourFirst L s) : ∃ r, db.events[s.eventId]? = some r := by
  obtain ⟨k, hk⟩ := (h.first s).mpr hs
  obtain ⟨r, hr, hread⟩ := h.settled.tables.rates.sound k s hk
  rw [(readRates_origin hread).1, h.settled.tables.rawJson_id hr]
  exact ⟨r, hr⟩

/-- A snapshot whose place is taken is redundant, or already kept itself. -/
theorem taken (h : Received X P L db) {e : Event} {r s : RateSnapshot F}
    (he : admission X P e = none) (hread : readRates X e = some s) (hr : r ∈ L)
    (hsame : SameHour r s) :
    HourFirst L s ∨ Heartbeats.isRedundant e (.rates s.publishedAt) db = true := by
  obtain ⟨hlo, hhi⟩ := publishedAt_bounds hread
  obtain ⟨hp, hb, hfits, -⟩ := (sameHour_iff hlo hhi).mp hsame
  obtain ⟨a, hfirst, hap, hab⟩ := exists_hourFirst (L := L) (r := r)
    (q := fun a => a.pubkey = s.pubkey ∧ Heartbeats.bucketOf a.publishedAt
      = Heartbeats.bucketOf s.publishedAt)
    (fun x _ y hy hxy hq => by
      obtain ⟨hylo, hyhi⟩ := h.bounds hy
      obtain ⟨hxp, hxb, -, -⟩ := (sameHour_iff hylo hyhi).mp hxy
      exact ⟨hxp.trans hq.1, hxb.trans hq.2⟩)
    hr ⟨hp, hb⟩
  by_cases hid : a.eventId = s.eventId
  · exact Or.inl (h.eq_of_id hfirst.mem he hread hid ▸ hfirst)
  · exact Or.inr ((h.isRedundant_iff hread).mpr
      ⟨a, hfirst, (sameHour_iff hlo hhi).mpr ⟨hap, hab, hfits, hid⟩⟩)

/-- A call that brings no snapshot leaves `rates` alone. -/
theorem rates_of_nothing {c : Call} (hb : brought X P c db = none) :
    (ingest X P c db).2.rates = db.rates := by
  obtain ⟨outcome, db', heq, hcases⟩ := ingest_cases X P c db
  rw [heq]
  cases hcases with
  | turnedAway _ => rfl
  | unread _ _ => rfl
  | redundant _ _ _ => rfl
  | duplicate _ _ _ _ => rfl
  | @stored parsed hadm hp _ _ =>
      have hput := (persisted hp { db with
        events := db.events.insertIfNew c.event.id c.record }).rates
      rw [brought_of_admitted hadm] at hb
      show (persist X c.event parsed _).rates = _
      rw [hput, hb]
      rfl

/-- **STEP**: what is stored goes on being what came first. -/
theorem first_step (h : Received X P L db) (c : Call) (row : RateSnapshot F) :
    (∃ k : String, (ingest X P c db).2.rates[k]? = some row)
      ↔ HourFirst (L ++ (brought X P c db).toList) row := by
  cases hb : brought X P c db with
  | none =>
      rw [rates_of_nothing hb, Option.toList_none, List.append_nil]
      exact h.first row
  | some s =>
      have hadm : Admitted X P c.event db := by
        by_contra hno
        rw [brought_of_not hno] at hb
        exact nomatch hb
      have hread : readRates X c.event = some s := brought_of_admitted hadm ▸ hb
      have hparse := readRates_eq_some.mp hread
      have hid := (readRates_origin hread).1
      rw [Option.toList_some, hourFirst_append_iff]
      obtain ⟨outcome, db', heq, hcases⟩ := ingest_cases X P c db
      rw [heq]
      cases hcases with
      | turnedAway hno => exact absurd hadm hno
      | unread _ hp => exact nomatch hp.symm.trans hparse
      | redundant _ hp hr =>
          -- The query found one of its hour, so it is nobody's first.
          cases hp.symm.trans hparse
          obtain ⟨r, hr, hsame⟩ := (h.isRedundant_iff hread).mp hr
          refine (h.first row).trans ⟨Or.inl, ?_⟩
          rintro (hfirst | ⟨-, hnone⟩)
          · exact hfirst
          · exact absurd hsame (hnone r hr.mem)
      | duplicate _ hp _ hk =>
          have hs := h.first_of_archived hadm.admission hread hk
          refine (h.first row).trans ⟨Or.inl, ?_⟩
          rintro (hfirst | ⟨rfl, -⟩)
          · exact hfirst
          · exact hs
      | @stored parsed _ hp hr hk =>
          cases hp.symm.trans hparse
          have hnew : ¬ HourFirst L s := by
            intro hs
            obtain ⟨r, hr⟩ := h.archived_of_first hs
            rw [hid, hk] at hr
            exact nomatch hr
          -- Had the hour been taken, it would have been dropped as redundant.
          have hfree : ∀ r ∈ L, ¬ SameHour r s := by
            intro r hmem hsame
            rcases h.taken hadm.admission hread hmem hsame with hs | hred
            · exact hnew hs
            · exact nomatch hr.symm.trans hred
          have hnone : db.rates[c.event.id]? = none := by
            cases hold : db.rates[c.event.id]? with
            | none => rfl
            | some old =>
                obtain ⟨r, hr, -⟩ := h.settled.tables.rates.sound _ old hold
                exact nomatch hk.symm.trans hr
          have hput := (persisted hp { db with
            events := db.events.insertIfNew c.event.id c.record }).rates
          show (∃ k : String, (persist X c.event (.rates s) _).rates[k]? = some row) ↔ _
          rw [hput, hread]
          constructor
          · rintro ⟨k, hk⟩
            rcases getElem?_put_eq_some.mp hk with hold | ⟨-, -, hrow⟩
            · exact Or.inl ((h.first row).mp ⟨k, hold⟩)
            · exact Or.inr ⟨(Option.some.inj hrow).symm, hfree⟩
          · rintro (hfirst | ⟨rfl, -⟩)
            · obtain ⟨k, hk⟩ := (h.first row).mpr hfirst
              exact ⟨k, getElem?_put_eq_some.mpr (Or.inl hk)⟩
            · exact ⟨_, getElem?_put_eq_some.mpr (Or.inr ⟨hnone, rfl, rfl⟩)⟩

theorem step (h : Received X P L db) (c : Call) :
    Received X P (L ++ (brought X P c db).toList) (ingest X P c db).2 := by
  refine ⟨ingest_settled c h.settled, ?_, ?_, h.first_step c⟩
  · intro k r hk
    rcases ingest_events_cases hk with hold | ⟨harch, -, rfl⟩
    · exact h.admitted k r hold
    · exact admission_of_archives harch
  · intro s hs
    rcases List.mem_append.mp hs with hold | hnew
    · exact h.source s hold
    · have hb : brought X P c db = some s := Option.mem_toList.mp hnew
      have hadm : Admitted X P c.event db := by
        by_contra hno
        rw [brought_of_not hno] at hb
        exact nomatch hb
      exact ⟨c.event, hadm.admission, brought_of_admitted hadm ▸ hb⟩

end Received

/-- **RUN**: whatever is ingested, `rates` holds the first of each hour. -/
theorem received_run (X : Externals F) (P : Policy) (calls : List Call) :
    Received X P (received X P calls) (ingestAll X P calls Db.empty) := by
  have hrun : (calls.foldl (receive X P) ([], Db.empty)).2
        = ingestAll X P calls Db.empty
      ∧ Received X P (calls.foldl (receive X P) ([], Db.empty)).1
        (calls.foldl (receive X P) ([], Db.empty)).2 := by
    induction calls using List.reverseRecOn with
    | nil =>
        refine ⟨rfl, settled_empty, fun _ _ h => (nomatch h), fun _ h => (nomatch h), ?_⟩
        intro row
        refine iff_of_false (fun ⟨_, h⟩ => nomatch h) ?_
        intro h
        exact nomatch h.mem
    | append_singleton calls c ih =>
        obtain ⟨hdb, hreceived⟩ := ih
        rw [List.foldl_append, ingestAll, List.foldl_append]
        exact ⟨congrArg (fun db => (ingest X P c db).2) hdb, hreceived.step c⟩
  rw [received, ← hrun.1]
  exact hrun.2

theorem mem_stored_iff (X : Externals F) (P : Policy) (calls : List Call)
    (s : RateSnapshot F) : s ∈ stored X P calls ↔ HourFirst (received X P calls) s := by
  rw [stored, mem_rowsBy, ← (received_run X P calls).first s]
  simp

/-! ## When thinning unprices nothing -/

/-- `s` prices `fiat` at `t`. -/
structure Prices (s : RateSnapshot F) (fiat : String) (t : Int) : Prop where
  quotes : Quotes s fiat
  published : s.publishedAt ≤ t
  fresh : t - s.publishedAt ≤ 300

theorem rateAt_of_isSome_iff (snapshots : List (RateSnapshot F)) (pubkey fiat : String)
    (t : Int) :
    ((Book.new (snapshots.map Snapshot.of)).rateAt pubkey fiat t).isSome = true
      ↔ ∃ s ∈ snapshots, Prices s fiat t := by
  rw [rateAt_isSome_iff]
  simp only [Priced, usable, Bool.and_eq_true, decide_eq_true_iff]
  constructor
  · rintro ⟨_, hs, ⟨hle, hage⟩, hquotes⟩
    obtain ⟨s, hmem, rfl⟩ := List.mem_map.mp hs
    exact ⟨s, hmem, hquotes, hle, hage⟩
  · rintro ⟨s, hs, hquotes, hle, hage⟩
    exact ⟨Snapshot.of s, List.mem_map.mpr ⟨s, hs, rfl⟩, ⟨hle, hage⟩, hquotes⟩

theorem stillPriced_iff (X : Externals F) (P : Policy) (calls : List Call) :
    StillPriced X P calls ↔ ∀ fiat t, -2 ^ 63 ≤ t → t < 2 ^ 63 →
      ∀ s ∈ received X P calls, Prices s fiat t →
        ∃ a, HourFirst (received X P calls) a ∧ Prices a fiat t := by
  simp only [StillPriced, rateAt_of_isSome_iff, mem_stored_iff]
  constructor
  · intro h fiat t hlo hhi s hs hprices
    exact h "" fiat t hlo hhi ⟨s, hs, hprices⟩
  · rintro h - fiat t hlo hhi ⟨s, hs, hprices⟩
    exact h fiat t hlo hhi s hs hprices

/-- A snapshot whose place is taken is priced for its five minutes well inside
    an `i64`. -/
theorem Received.fits {L : List (RateSnapshot F)} {db : Db F} (h : Received X P L db)
    {s : RateSnapshot F} (hs : s ∈ L) (hnot : ¬ HourFirst L s) :
    s.publishedAt + 300 < 2 ^ 63 := by
  obtain ⟨before, after, rfl⟩ := List.append_of_mem hs
  obtain ⟨r, hr, hsame⟩ : ∃ r ∈ before, SameHour r s := by
    by_contra hnone
    push Not at hnone
    exact hnot ⟨before, after, rfl, hnone⟩
  obtain ⟨hlo, hhi⟩ := h.bounds hs
  obtain ⟨-, -, hfits, -⟩ := (sameHour_iff hlo hhi).mp hsame
  obtain ⟨hour, hbucket, -, hend⟩ := bucketOf_spec s.publishedAt
  have hsecs : Heartbeats.ratesBucketSecs = 3600 := rfl
  rw [hbucket, hsecs] at hfits
  omega

/-- **THINNING UNPRICES NOTHING EXACTLY WHEN EVERY DROPPED SNAPSHOT IS BRIDGED.**
    Whatever is ingested in whatever order, every quote the full book gives the
    stored one gives too, iff a snapshot that is not the first of its publisher
    and hour stands between two that are, at most 301 seconds apart. -/
theorem still_priced_iff_bridged (X : Externals F) (P : Policy) (calls : List Call) :
    StillPriced X P calls ↔ Bridged (received X P calls) := by
  have hrun := received_run X P calls
  rw [stillPriced_iff]
  generalize received X P calls = L at hrun ⊢
  constructor
  · intro h s hs hnot fiat hquotes
    obtain ⟨hlo, -⟩ := hrun.bounds hs
    have hfits := hrun.fits hs hnot
    -- The latest kept quote at the instant of `s` is where a gap would start.
    have hat : ∃ a : Int, a ≤ s.publishedAt ∧ s.publishedAt - a ≤ 300
        ∧ ∃ k, HourFirst L k ∧ Quotes k fiat ∧ k.publishedAt = a := by
      obtain ⟨k, hk, hprices⟩ := h fiat s.publishedAt (by omega) (by omega) s hs
        ⟨hquotes, le_refl _, by omega⟩
      exact ⟨_, hprices.published, hprices.fresh, k, hk, hprices.quotes, rfl⟩
    obtain ⟨a, ⟨hle, hage, k, hk, hkquotes, rfl⟩, hgreatest⟩ :=
      Int.exists_greatest_of_bdd ⟨s.publishedAt, fun _ ha => ha.1⟩ hat
    by_cases heq : k.publishedAt = s.publishedAt
    · exact ⟨k, k, hk, hk, hkquotes, hkquotes, hle, heq.ge, by omega⟩
    · obtain ⟨b, hb, hprices⟩ := h fiat (k.publishedAt + 301) (by omega) (by omega) s hs
        ⟨hquotes, by omega, by omega⟩
      have hfresh := hprices.fresh
      have hlater : s.publishedAt ≤ b.publishedAt := by
        by_contra hbefore
        have := hgreatest b.publishedAt
          ⟨by omega, by omega, b, hb, hprices.quotes, rfl⟩
        omega
      exact ⟨k, b, hk, hb, hkquotes, hprices.quotes, hle, hlater, by
        have := hprices.published
        omega⟩
  · intro h fiat t hlo hhi s hs hprices
    by_cases hfirst : HourFirst L s
    · exact ⟨s, hfirst, hprices⟩
    · obtain ⟨a, b, ha, hb, haquotes, hbquotes, hle, hge, hgap⟩ :=
        h s hs hfirst fiat hprices.quotes
      have hpublished := hprices.published
      have hfresh := hprices.fresh
      -- From `b` on it is `b` that prices, before it `a`.
      by_cases hlate : b.publishedAt ≤ t
      · exact ⟨b, hb, hbquotes, hlate, by omega⟩
      · exact ⟨a, ha, haquotes, by omega, by omega⟩

/-! ## A price lost -/

/-- A rate snapshot that carries the sheet `content`. -/
def ratesEvent (id pubkey : String) (createdAt : UInt64) (content : String) : Event where
  id := id
  pubkey := pubkey
  createdAt := createdAt
  kind := ratesKind
  tags := [["d", "mostro-rates"]]
  content := content
  sig := ""

/-- The first sheet of the hour. -/
def onTheHour : Event :=
  ratesEvent "4000000000000000000000000000000000000000000000000000000000000001"
    Convergence.alice 1785600000 "sheet"

/-- The sheet republished ten minutes later. -/
def tenPast : Event :=
  ratesEvent "4000000000000000000000000000000000000000000000000000000000000002"
    Convergence.alice 1785600600 "sheet"

def sheets : Externals Int :=
  Externals.over [onTheHour, tenPast] (by decide) [("sheet", [("USD", 60000)])]

/-- The publisher is listed: its rates need no other proof. -/
def listed : Policy := ⟨[Convergence.alice], false, [.mainnet]⟩

def twoSheets : List Call :=
  [⟨onTheHour, "wss://a", 1785600001⟩, ⟨tenPast, "wss://a", 1785600601⟩]

/-- **THE SECOND SHEET'S FIVE MINUTES ARE LOST**: an order completed at ten past
    was priced by the sheet published then; that sheet is dropped, and the first
    one is too old. -/
theorem second_sheet_unpriced :
    (∀ c ∈ twoSheets, admission sheets listed c.event = none ∧ c.event.kind = ratesKind) ∧
      ((Book.new ((received sheets listed twoSheets).map Snapshot.of)).rateAt
        Convergence.alice "USD" 1785600600).map RateQuote.rate = some 60000 ∧
      ((Book.new ((stored sheets listed twoSheets).map Snapshot.of)).rateAt
        Convergence.alice "USD" 1785600600).isSome = false ∧
      ¬ StillPriced sheets listed twoSheets := by
  have hall : ((Book.new ((received sheets listed twoSheets).map Snapshot.of)).rateAt
      Convergence.alice "USD" 1785600600).map RateQuote.rate = some 60000 := by
    decide +kernel
  have hkept : ((Book.new ((stored sheets listed twoSheets).map Snapshot.of)).rateAt
      Convergence.alice "USD" 1785600600).isSome = false := by
    decide +kernel
  refine ⟨by decide +kernel, hall, hkept, fun h => ?_⟩
  have hpriced := h Convergence.alice "USD" 1785600600 (by decide) (by decide) (by
    rw [← Option.isSome_map, hall]
    rfl)
  exact nomatch hkept.symm.trans hpriced

end Thinning
