import Bestiario.Admission
import Bestiario.Migration

/-! # Heartbeats fed in order

    Fed in the order they were made, heartbeats meet an archive that holds what was
    kept of those before them.  The two queries of step 6a are then a rule over the
    list of what was kept, and what was kept is the rule run over the list. -/

namespace Migration

open Keyed Wire Parse Repo Pipeline Derived Retain
open Admission (Believed HasRow isPlatformProven_iff believed_ingest)

variable {F : Type} {X : Externals F} {P : Policy} {db db₀ db' : Db F}

/-! ## The pipeline's rule, over what was kept -/

/-- The three kinds retention is about. -/
def heartbeat (kind : UInt16) : Bool := announces kind || kind == ratesKind

/-- Whose announcements an announcement is among. -/
def group (e : Event) : Option (String × UInt16 × Option String) :=
  if announces e.kind then some (e.pubkey, e.kind, Wire.dTag e) else none

/-- `e` says what `p` said. -/
def repeats (e p : Event) : Bool := p.content == e.content && Heartbeats.sameTags p e

/-- The end of the hour is an instant. -/
def Ends (s : RateSnapshot F) : Prop :=
  Heartbeats.bucketOf s.publishedAt + Heartbeats.ratesBucketSecs < 2 ^ 63

/-- Two snapshots of one publisher and hour. -/
def OneHour (t s : RateSnapshot F) : Prop :=
  t.pubkey = s.pubkey
    ∧ Heartbeats.bucketOf t.publishedAt = Heartbeats.bucketOf s.publishedAt

instance (s : RateSnapshot F) : Decidable (Ends s) := inferInstanceAs (Decidable (_ < _))

instance (t s : RateSnapshot F) : Decidable (OneHour t s) := inferInstanceAs (Decidable (_ ∧ _))

/-- `f` takes the place of `e`, both snapshots of one hour that ends. -/
def takes (X : Externals F) (e f : Event) : Bool :=
  match readRates X e, readRates X f with
  | some s, some t => decide (OneHour t s) && decide (Ends s)
  | _, _ => false

/-- Step 6a over the events kept so far, oldest first. -/
def drop (X : Externals F) (kept : List Event) (e : Event) : Bool :=
  if announces e.kind then (lastOf group e kept).any (repeats e) else kept.any (takes X e)

theorem repeats_iff {e p : Event} :
    repeats e p = true ↔ p.content = e.content ∧ p.tags.Perm e.tags := by
  rw [repeats, Bool.and_eq_true, beq_iff_eq, sameTags_iff]

theorem repeats_symm (x y : Event) (h : repeats x y = true) : repeats y x = true := by
  obtain ⟨hcontent, htags⟩ := repeats_iff.mp h
  exact repeats_iff.mpr ⟨hcontent.symm, htags.symm⟩

theorem repeats_trans (x y z : Event) (hxy : repeats x y = true) (hyz : repeats y z = true) :
    repeats x z = true := by
  obtain ⟨hcontent, htags⟩ := repeats_iff.mp hxy
  obtain ⟨hcontent', htags'⟩ := repeats_iff.mp hyz
  exact repeats_iff.mpr ⟨hcontent'.trans hcontent, htags'.trans htags⟩

theorem takes_iff {e f : Event} : takes X e f = true ↔ ∃ s t, readRates X e = some s
    ∧ readRates X f = some t ∧ OneHour t s ∧ Ends s := by
  rw [takes]
  cases hs : readRates X e with
  | none => simp
  | some s =>
      cases ht : readRates X f with
      | none => simp
      | some t => simp

theorem takes_trans (x y z : Event) (hxy : takes X x y = true) (hyz : takes X y z = true) :
    takes X x z = true := by
  obtain ⟨s, t, hs, ht, ⟨hpubkey, hhour⟩, hends⟩ := takes_iff.mp hxy
  obtain ⟨t', u, ht', hu, ⟨hpubkey', hhour'⟩, -⟩ := takes_iff.mp hyz
  rw [ht] at ht'
  cases ht'
  exact takes_iff.mpr ⟨s, u, hs, hu, ⟨hpubkey'.trans hpubkey, hhour'.trans hhour⟩, hends⟩

theorem not_announces_of_readRates {e : Event} {s : RateSnapshot F}
    (h : readRates X e = some s) : announces e.kind = false := by
  have hkind := readRates_kind h
  rw [hkind]
  rfl

theorem group_of_announces {e : Event} (h : announces e.kind = true) :
    group e = some (e.pubkey, e.kind, Wire.dTag e) := if_pos h

theorem announces_of_group {e : Event} (h : group e ≠ none) : announces e.kind = true := by
  by_contra hno
  exact h (if_neg hno)

/-- What shares an announcement's group is one. -/
theorem announces_of_same {e f : Event} (h : group f = group e) (he : announces e.kind = true) :
    announces f.kind = true := by
  refine announces_of_group ?_
  rw [h, group_of_announces he]
  exact Option.some_ne_none _

/-- **AN ANNOUNCEMENT IS DROPPED** when it repeats the one fed before it. -/
theorem drop_announcement (before : List Event) {e : Event} (he : announces e.kind = true) :
    drop X (keep (drop X) before) e = (lastOf group e before).any (repeats e) := by
  refine drop_keep_last repeats_symm repeats_trans (fun kept x hx => ?_) before ?_
  · exact if_pos (announces_of_group hx)
  · rw [group_of_announces he]
    exact Option.some_ne_none _

/-- **A SNAPSHOT IS DROPPED** when one of its hour was fed before it. -/
theorem drop_snapshot (before : List Event) {e : Event} {s : RateSnapshot F}
    (hs : readRates X e = some s) :
    drop X (keep (drop X) before) e = before.any (takes X e) := by
  refine drop_keep_class (q := fun x => (readRates X x).isSome) ?_ takes_trans ?_ before ?_
  · intro x y hxy
    obtain ⟨-, t, -, ht, -⟩ := takes_iff.mp hxy
    exact Option.isSome_of_eq_some ht
  · intro kept x hx
    obtain ⟨t, ht⟩ := Option.isSome_iff_exists.mp hx
    rw [drop, not_announces_of_readRates ht]
    exact if_neg Bool.false_ne_true
  · exact Option.isSome_of_eq_some hs

/-! ## What the feed leaves archived -/

theorem vouchedFor_eq_none_iff {e : Event} :
    vouchedFor P e db = none ↔ (untaggedKinds.contains e.kind = true → Believed P e.pubkey db) := by
  rw [vouchedFor]
  cases huntagged : untaggedKinds.contains e.kind with
  | false =>
      refine ⟨?_, fun _ => rfl⟩
      intro _ h
      cases h
  | true =>
      rw [Bool.not_true, if_neg Bool.false_ne_true]
      have hbelieved : (P.listsInstance e.pubkey || Instances.isPlatformProven e.pubkey db) = true
          ↔ Believed P e.pubkey db := by
        rw [Bool.or_eq_true, isPlatformProven_iff]
        exact Iff.rfl
      rw [← hbelieved]
      constructor
      · intro h _
        by_contra hno
        rw [if_neg hno] at h
        cases h
      · exact fun h => if_pos (h rfl)

/-- The archive after the events `fed`: those kept, and the snapshots among them. -/
structure Fed (X : Externals F) (P : Policy) (db₀ : Db F) (fed : List Event) (db : Db F) :
    Prop where
  keyed : ∀ (k : String) r, db.events[k]? = some r →
    r.id = k ∧ r = EventRecord.new r.rawJson r.relayUrl r.seenAt
      ∧ r.rawJson ∈ keep (drop X) fed
  kept : ∀ e ∈ keep (drop X) fed, ∃ r, db.events[e.id]? = some r ∧ r.rawJson = e
  rates : ∀ (k : String) s, db.rates[k]? = some s
    ↔ ∃ e ∈ keep (drop X) fed, e.id = k ∧ readRates X e = some s
  vouched : ∀ e, vouchedFor P e db₀ = none → vouchedFor P e db = none

theorem Fed.nil (hevents : db₀.events = ∅) (hrates : db₀.rates = ∅) : Fed X P db₀ [] db₀ where
  keyed := by
    intro k r hk
    rw [hevents, Std.ExtTreeMap.getElem?_empty] at hk
    exact nomatch hk
  kept := fun e he => nomatch he
  rates := by
    intro k s
    rw [hrates, Std.ExtTreeMap.getElem?_empty]
    constructor
    · intro h
      exact nomatch h
    · rintro ⟨e, he, -⟩
      exact nomatch he
  vouched := fun _ h => h

/-- `e` comes after all that was fed: its id is new, and so is the clock of an
    announcement among those of its address. -/
structure Next (fed : List Event) (e : Event) : Prop where
  fresh : ∀ f ∈ fed, f.id ≠ e.id
  later : ∀ f ∈ fed, announces e.kind = true → group f = group e → f.at < e.at
  apart : ∀ f ∈ fed, ∀ g ∈ fed, announces e.kind = true → group f = group e →
    group g = group e → f.at = g.at → f = g
  ordered : fed.Pairwise fun f g => announces f.kind = true → announces g.kind = true →
    f.at ≤ g.at

/-- The record's columns are its event's. -/
theorem address_of_keyed {r : EventRecord}
    (h : r = EventRecord.new r.rawJson r.relayUrl r.seenAt) :
    r.id = r.rawJson.id ∧ r.createdAt = r.rawJson.at ∧ r.kind = r.rawJson.kind
      ∧ address r = (r.rawJson.pubkey, r.rawJson.kind, Wire.dTag r.rawJson) :=
  ⟨congrArg EventRecord.id h, congrArg EventRecord.createdAt h, congrArg EventRecord.kind h,
    congrArg address h⟩

namespace Fed

variable {fed : List Event} {e : Event}

/-- What the query selects is what was kept of the address. -/
theorem selects_iff (h : Fed X P db₀ fed db) (hnext : Next fed e) (he : announces e.kind = true)
    {k : String} {r : EventRecord} (hk : db.events[k]? = some r) :
    (r.pubkey == e.pubkey && r.kind == e.kind && r.dTag == Wire.dTag e
      && decide (r.createdAt ≤ e.at) && r.id != e.id) = true ↔ group r.rawJson = group e := by
  obtain ⟨-, hnew, hkept⟩ := h.keyed k r hk
  have hmem : r.rawJson ∈ fed := (keep_sublist fed).subset hkept
  obtain ⟨hid, hat, hkind, haddress⟩ := address_of_keyed hnew
  simp only [Bool.and_eq_true, beq_iff_eq, decide_eq_true_iff, bne_iff_ne]
  constructor
  · rintro ⟨⟨⟨⟨hp, hk'⟩, hd⟩, -⟩, -⟩
    have hannounces : announces r.rawJson.kind = true := by
      rw [← hkind, hk']
      exact he
    rw [group_of_announces he, group_of_announces hannounces, ← haddress, address, hp, hk', hd]
  · intro hgroup
    have hlt := hnext.later _ hmem he hgroup
    have hannounces := announces_of_same hgroup he
    rw [group_of_announces he, group_of_announces hannounces, Option.some.injEq,
      ← haddress, address, Prod.mk.injEq, Prod.mk.injEq] at hgroup
    exact ⟨⟨⟨⟨hgroup.1, hgroup.2.1⟩, hgroup.2.2⟩, hat ▸ hlt.le⟩, hid ▸ hnext.fresh _ hmem⟩

/-- The version the pipeline compares with is the last of the address that was kept. -/
theorem previous_eq (h : Fed X P db₀ fed db) (hnext : Next fed e)
    (he : announces e.kind = true) :
    (Heartbeats.previous e db).map EventRecord.rawJson
      = lastOf group e (keep (drop X) fed) := by
  have hsub : keep (drop X) fed ⊆ fed := (keep_sublist fed).subset
  cases hlast : lastOf group e (keep (drop X) fed) with
  | none =>
      have hnone : Heartbeats.previous e db = none := by
        refine (first_eq_none_iff _).mpr fun k r hk => ?_
        refine Bool.eq_false_iff.mpr fun hsel => ?_
        exact lastOf_eq_none_iff.mp hlast _ (h.keyed k r hk).2.2
          ((h.selects_iff hnext he hk).mp hsel)
      rw [hnone]
      rfl
  | some f =>
      obtain ⟨hfkept, hfgroup, hle⟩ :=
        lastOf_spec (hnext.ordered.sublist (keep_sublist fed)) hlast
      obtain ⟨q, hq, hqf⟩ := h.kept f hfkept
      have hqsel := (h.selects_iff hnext he hq).mpr (hqf ▸ hfgroup)
      cases hprevious : Heartbeats.previous e db with
      | none =>
          have hno := (first_eq_none_iff _).mp hprevious _ q hq
          rw [hqsel] at hno
          exact nomatch hno
      | some r =>
          obtain ⟨⟨k, hk⟩, hsel⟩ := first_mem hprevious
          obtain ⟨-, hnew, hrmem⟩ := h.keyed k r hk
          have hrgroup := (h.selects_iff hnext he hk).mp hsel
          -- The query answers the greatest clock, and the last kept has it.
          have hge : f.at ≤ r.rawJson.at := by
            have hfirst := first_le hprevious hq hqsel
            have hqat : q.createdAt = f.at := by
              rw [(address_of_keyed (h.keyed _ q hq).2.1).2.1, hqf]
            have hrat : r.createdAt = r.rawJson.at := (address_of_keyed hnew).2.1
            rcases descAsc_le_iff.mp hfirst with hlt | ⟨heq, -⟩
            · omega
            · omega
          have hle' : r.rawJson.at ≤ f.at := by
            rcases hle r.rawJson hrmem hrgroup with heq | hle
            · rw [heq]
            · exact hle (announces_of_same hrgroup he) (announces_of_same hfgroup he)
          have heq : r.rawJson = f := hnext.apart _ (hsub hrmem) _ (hsub hfkept) he hrgroup
            hfgroup (le_antisymm hle' hge)
          rw [Option.map_some, heq]

theorem isRedundant_announcement (h : Fed X P db₀ fed db) (hnext : Next fed e)
    (he : announces e.kind = true) :
    Heartbeats.isRedundant e .announcement db = drop X (keep (drop X) fed) e := by
  rw [drop, if_pos he, ← h.previous_eq hnext he, Heartbeats.isRedundant]
  cases Heartbeats.previous e db with
  | none => rfl
  | some r => rfl

theorem isRedundant_snapshot (h : Fed X P db₀ fed db) (hnext : Next fed e)
    {s : RateSnapshot F} (hs : readRates X e = some s) :
    Heartbeats.isRedundant e (.rates s.publishedAt) db = drop X (keep (drop X) fed) e := by
  have hsub : keep (drop X) fed ⊆ fed := (keep_sublist fed).subset
  obtain ⟨hid, hpubkey⟩ := readRates_origin hs
  obtain ⟨hlo, hhi⟩ := Thinning.publishedAt_bounds hs
  rw [drop, not_announces_of_readRates hs, if_neg Bool.false_ne_true, Heartbeats.isRedundant,
    Bool.eq_iff_iff, Bool.not_eq_true', List.isEmpty_eq_false_iff_exists_mem, List.any_eq_true]
  constructor
  · rintro ⟨t, ht⟩
    obtain ⟨⟨k, hk⟩, hsel⟩ := mem_rows.mp ht
    simp only [Bool.and_eq_true, beq_iff_eq, decide_eq_true_iff, bne_iff_ne] at hsel
    obtain ⟨⟨⟨hp, hfrom⟩, huntil⟩, hne⟩ := hsel
    obtain ⟨f, hf, -, hread⟩ := (h.rates k t).mp hk
    obtain ⟨hp', hhour, hends, -⟩ := (Thinning.sameHour_iff hlo hhi).mp
      ⟨hp.trans hpubkey.symm, hfrom, huntil, hid ▸ hne⟩
    exact ⟨f, hf, takes_iff.mpr ⟨s, t, hs, hread, ⟨hp', hhour⟩, hends⟩⟩
  · rintro ⟨f, hf, htakes⟩
    obtain ⟨s', t, hs', hread, ⟨hp, hhour⟩, hends⟩ := takes_iff.mp htakes
    rw [hs] at hs'
    cases hs'
    have hne : t.eventId ≠ s.eventId := by
      rw [(readRates_origin hread).1, hid]
      exact hnext.fresh f (hsub hf)
    obtain ⟨-, hfrom, huntil, -⟩ := (Thinning.sameHour_iff hlo hhi).mpr ⟨hp, hhour, hends, hne⟩
    refine ⟨t, mem_rows.mpr ⟨⟨f.id, (h.rates _ t).mpr ⟨f, hf, rfl, hread⟩⟩, ?_⟩⟩
    simp only [Bool.and_eq_true, beq_iff_eq, decide_eq_true_iff, bne_iff_ne]
    exact ⟨⟨⟨hp.trans hpubkey, hfrom⟩, huntil⟩, hid ▸ hne⟩

/-- **THE QUERIES OVER THE ARCHIVE ARE THE RULE OVER WHAT WAS KEPT.** -/
theorem isRedundant_eq (h : Fed X P db₀ fed db) (hnext : Next fed e)
    (hkind : heartbeat e.kind = true) {parsed : Parsed F} (hp : parse X e = .ok parsed) :
    Heartbeats.isRedundant e (parsedHeartbeat parsed) db = drop X (keep (drop X) fed) e := by
  have hnot : ∀ {kind : UInt16}, e.kind = kind → heartbeat kind = false → False :=
    fun heq hno => Bool.false_ne_true (hno.symm.trans (heq ▸ hkind))
  cases parsed with
  | order v => exact (hnot (parseOrder_origin (parse_order hp)).1 rfl).elim
  | devFee v => exact (hnot (parseDevFee_origin (parse_devFee hp)).1 rfl).elim
  | dispute v => exact (hnot (parseDispute_origin (parse_dispute hp)).1 rfl).elim
  | info v =>
      refine h.isRedundant_announcement hnext ?_
      rw [(parseInfo_origin (parse_info hp)).1]
      rfl
  | rates s => exact h.isRedundant_snapshot hnext (readRates_eq_some.mpr hp)
  | relayList v =>
      refine h.isRedundant_announcement hnext ?_
      have hlist : parseRelayList X e = .ok v := by simpa using parse_cases hp
      rw [(parseRelayList_origin hlist).1]
      rfl

/-- What is fed next has not been archived. -/
theorem unseen (h : Fed X P db₀ fed db) (hnext : Next fed e) : db.events[e.id]? = none := by
  cases hk : db.events[e.id]? with
  | none => rfl
  | some r =>
      obtain ⟨hid, hrow, hmem⟩ := h.keyed _ r hk
      refine absurd ?_ (hnext.fresh _ ((keep_sublist fed).subset hmem))
      rw [← (address_of_keyed hrow).1, hid]

/-- Nor has it left a row of rates. -/
theorem unpriced (h : Fed X P db₀ fed db) (hnext : Next fed e) : db.rates[e.id]? = none := by
  cases hrow : db.rates[e.id]? with
  | none => rfl
  | some t =>
      obtain ⟨f, hf, hid, -⟩ := (h.rates _ t).mp hrow
      exact absurd hid (hnext.fresh f ((keep_sublist fed).subset hf))

/-- A feed whose last event is kept is the feed before it and that event's rows. -/
theorem stored (h : Fed X P db₀ fed db) {c : Call} (hnext : Next fed c.event) {db' : Db F}
    (hkeep : keep (drop X) (fed ++ [c.event]) = keep (drop X) fed ++ [c.event])
    (hevents : ∀ k : String, db'.events[k]?
      = if c.event.id = k then some c.record else db.events[k]?)
    (hrates : ∀ (k : String) s, db'.rates[k]? = some s
      ↔ db.rates[k]? = some s ∨ c.event.id = k ∧ readRates X c.event = some s)
    (hvouched : ∀ e, vouchedFor P e db₀ = none → vouchedFor P e db' = none) :
    Fed X P db₀ (fed ++ [c.event]) db' where
  keyed := by
    intro k r hk
    rw [hevents] at hk
    rw [hkeep]
    by_cases hid : c.event.id = k
    · rw [if_pos hid] at hk
      cases hk
      exact ⟨hid, rfl, List.mem_append_right _ List.mem_cons_self⟩
    · rw [if_neg hid] at hk
      obtain ⟨hid', hrow, hmem⟩ := h.keyed k r hk
      exact ⟨hid', hrow, List.mem_append_left _ hmem⟩
  kept := by
    intro e he
    rw [hkeep, List.mem_append, List.mem_singleton] at he
    rw [hevents]
    rcases he with he | rfl
    · obtain ⟨r, hr, hre⟩ := h.kept e he
      refine ⟨r, ?_, hre⟩
      have hne : c.event.id ≠ e.id := by
        intro hid
        rw [← hid, h.unseen hnext] at hr
        cases hr
      rw [if_neg hne]
      exact hr
    · exact ⟨c.record, if_pos rfl, rfl⟩
  rates := by
    intro k s
    rw [hrates, hkeep, h.rates]
    constructor
    · rintro (⟨e, he, hid, hread⟩ | ⟨hid, hread⟩)
      · exact ⟨e, List.mem_append_left _ he, hid, hread⟩
      · exact ⟨c.event, List.mem_append_right _ List.mem_cons_self, hid, hread⟩
    · rintro ⟨e, he, hid, hread⟩
      rcases List.mem_append.mp he with he | he
      · exact .inl ⟨e, he, hid, hread⟩
      · rw [List.mem_singleton] at he
        subst he
        exact .inr ⟨hid, hread⟩
  vouched := hvouched

/-- **STEP**: a heartbeat fed next is kept or dropped as the rule says. -/
theorem step (h : Fed X P db₀ fed db) {c : Call} (hnext : Next fed c.event)
    (hkind : heartbeat c.event.kind = true) (hadmission : admission X P c.event = none)
    (hvouched : vouchedFor P c.event db₀ = none) {parsed : Parsed F}
    (hp : parse X c.event = .ok parsed) :
    Fed X P db₀ (fed ++ [c.event]) (ingest X P c db).2 := by
  have hadmitted : Admitted X P c.event db := ⟨hadmission, h.vouched _ hvouched⟩
  have hnew := h.unseen hnext
  have hvouched' : ∀ e, vouchedFor P e db₀ = none → vouchedFor P e (ingest X P c db).2 = none :=
    fun e he => vouchedFor_eq_none_iff.mpr fun huntagged =>
      believed_ingest (vouchedFor_eq_none_iff.mp (h.vouched e he) huntagged)
  have hdrop := h.isRedundant_eq hnext hkind hp
  obtain ⟨outcome, db', heq, hcases⟩ := ingest_cases X P c db
  rw [heq] at hvouched' ⊢
  cases hcases with
  | turnedAway hno => exact absurd hadmitted hno
  | unread _ herror => cases herror.symm.trans hp
  | @redundant parsed' _ hp' hr =>
      cases hp.symm.trans hp'
      have hkeep : keep (drop X) (fed ++ [c.event]) = keep (drop X) fed := by
        rw [keep_concat, if_pos (hdrop.symm.trans hr)]
      exact {
        keyed := by rw [hkeep]; exact h.keyed
        kept := by rw [hkeep]; exact h.kept
        rates := by rw [hkeep]; exact h.rates
        vouched := hvouched' }
  | duplicate _ _ _ hk => cases hnew.symm.trans hk
  | @stored parsed' _ hp' hr _ =>
      -- It is new, so both tables gain its row and nothing else.
      cases hp.symm.trans hp'
      have hpersist := persisted hp { db with
        events := db.events.insertIfNew c.event.id c.record }
      refine h.stored hnext ?_ (fun k => ?_) (fun k s => ?_) hvouched'
      · rw [keep_concat, if_neg]
        rw [← hdrop, hr]
        exact Bool.false_ne_true
      · rw [advance_events, hpersist.events, getElem?_insertIfNew_eq]
        by_cases hid : c.event.id = k
        · rw [if_pos hid, if_pos hid, ← hid, hnew]
          rfl
        · rw [if_neg hid, if_neg hid]
      · have hput : (advance c (persist X c.event parsed { db with
            events := db.events.insertIfNew c.event.id c.record })).rates
            = put db.rates c.event.id (readRates X c.event) := hpersist.rates
        rw [hput, getElem?_put_eq_some]
        refine or_congr_right ⟨?_, ?_⟩
        · rintro ⟨_, hid, hread⟩
          exact ⟨hid.symm, hread⟩
        · rintro ⟨hid, hread⟩
          exact ⟨h.unpriced hnext, hid.symm, hread⟩

/-- **RUN**: the rule over the whole feed. -/
theorem run {calls : List Call} (hevents : db₀.events = ∅) (hrates : db₀.rates = ∅)
    (hnext : ∀ before c after, calls = before ++ c :: after →
      Next (before.map Call.event) c.event)
    (hkind : ∀ c ∈ calls, heartbeat c.event.kind = true)
    (hadmission : ∀ c ∈ calls, admission X P c.event = none)
    (hvouched : ∀ c ∈ calls, vouchedFor P c.event db₀ = none)
    (hparse : ∀ c ∈ calls, ∃ parsed, parse X c.event = .ok parsed) :
    Fed X P db₀ (calls.map Call.event) (ingestAll X P calls db₀) := by
  induction calls using List.reverseRecOn with
  | nil => exact .nil hevents hrates
  | append_singleton calls c ih =>
      have hc : c ∈ calls ++ [c] := List.mem_append_right _ List.mem_cons_self
      have hbefore := ih
        (fun before d after heq => hnext before d (after ++ [c]) (by
          rw [heq, List.append_assoc, List.cons_append]))
        (fun d hd => hkind d (List.mem_append_left _ hd))
        (fun d hd => hadmission d (List.mem_append_left _ hd))
        (fun d hd => hvouched d (List.mem_append_left _ hd))
        (fun d hd => hparse d (List.mem_append_left _ hd))
      obtain ⟨parsed, hp⟩ := hparse c hc
      rw [List.map_append, ingestAll, List.foldl_append]
      exact hbefore.step (hnext calls c [] rfl) (hkind c hc) (hadmission c hc) (hvouched c hc) hp

end Fed

end Migration
