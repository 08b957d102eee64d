import Bestiario.Convergence

/-! # Publishers apart

    An address of an addressable event is a publisher, a kind and a `d`; the
    tables `orders`, `disputes` and `dev_fees.is_duplicate` are keyed by the `d`
    alone.  So two publishers that use one id share a row, and what one of them
    publishes can decide what the other's order is said to be.

    Two runs are compared: one over a set of events, one over the same set
    without what `b` published.  Each column of a row is the newest or the least
    of the versions, so the columns stay what they were exactly when `b` has no
    version that is newest or least. -/

namespace Publishers

open Keyed Wire Parse Repo Pipeline Derived Convergence

variable {F : Type} {X : Externals F} {P : Policy}

/-! ## Extremes of a part -/

theorem newer_antisymm {a b : Rank} (hab : Newer a b) (hba : Newer b a) : a = b := by
  rcases hab with hab | ⟨hab, hid⟩ <;> rcases hba with hba | ⟨hba, hid'⟩
  · omega
  · omega
  · omega
  · exact Prod.ext hab (le_antisymm hid hid')

/-- The least of a part is the least of the whole exactly when nothing outside the
    part lies below it. -/
theorem leastOf_eq_iff {s s' : Set ℤ} {m m' : Option ℤ} (hsub : s' ⊆ s) (h : LeastOf s m)
    (h' : LeastOf s' m') : m' = m ↔ ∀ t ∈ s, ∃ t' ∈ s', t' ≤ t := by
  cases m with
  | none =>
      have hempty : s = ∅ := h
      have hempty' : s' = ∅ := Set.subset_eq_empty hsub hempty
      cases m' with
      | none => simp [hempty]
      | some t' =>
          have hmem : t' ∈ s' := h'.1
          rw [hempty'] at hmem
          exact hmem.elim
  | some t =>
      cases m' with
      | none =>
          have hempty' : s' = ∅ := h'
          refine iff_of_false (fun heq => by cases heq) (fun hall => ?_)
          obtain ⟨t', ht', -⟩ := hall t h.1
          rw [hempty'] at ht'
          exact ht'
      | some t' =>
          rw [Option.some.injEq]
          constructor
          · rintro rfl u hu
            exact ⟨t', h'.1, h.2 hu⟩
          · intro hall
            obtain ⟨u, hu, hle⟩ := hall t h.1
            exact le_antisymm ((h'.2 hu).trans hle) (h.2 (hsub h'.1))

section Newest

variable {V T : Type} {versions part : Set V} {rank : V → Rank} {field : V → Option T}
  {x x' : Option T}

/-- No two versions stand at one rank. -/
def Ranked (versions : Set V) (rank : V → Rank) : Prop :=
  ∀ v ∈ versions, ∀ w ∈ versions, rank v = rank w → v = w

theorem Ranked.mono (h : Ranked versions rank) (hsub : part ⊆ versions) : Ranked part rank :=
  fun v hv w hw => h v (hsub hv) w (hsub hw)

theorem newestOf_unique (hrank : Ranked versions rank) (h : NewestOf versions rank field x)
    (h' : NewestOf versions rank field x') : x = x' := by
  cases x with
  | none =>
      cases x' with
      | none => rfl
      | some y =>
          obtain ⟨v, hv, hfield, -⟩ := h'
          have hnone := h v hv
          rw [hnone] at hfield
          cases hfield
  | some y =>
      obtain ⟨v, hv, hfield, hnewest⟩ := h
      cases x' with
      | none =>
          have hnone := h' v hv
          rw [hnone] at hfield
          cases hfield
      | some y' =>
          obtain ⟨w, hw, hfield', hnewest'⟩ := h'
          have hvw : v = w := hrank v hv w hw (newer_antisymm
            (hnewest w hw (by rw [hfield']; exact Option.some_ne_none _))
            (hnewest' v hv (by rw [hfield]; exact Option.some_ne_none _)))
          rw [← hfield, ← hfield', hvw]

/-- The newest carrier of a part carries what the newest of the whole does exactly
    when one outside the part that is newest carries it too. -/
theorem newestOf_eq_iff (hrank : Ranked versions rank) (hsub : part ⊆ versions)
    (h : NewestOf versions rank field x) (h' : NewestOf part rank field x') :
    x' = x ↔ ∀ v ∈ versions, v ∉ part → ∀ y, field v = some y →
      (∀ w ∈ versions, field w ≠ none → Newer (rank v) (rank w)) →
        NewestOf part rank field (some y) := by
  constructor
  · rintro rfl v hv - y hy hnewest
    have hall : NewestOf versions rank field (some y) := ⟨v, hv, hy, hnewest⟩
    rw [newestOf_unique hrank h hall] at h'
    exact h'
  · intro hall
    cases x with
    | none =>
        cases x' with
        | none => rfl
        | some y =>
            obtain ⟨v, hv, hfield, -⟩ := h'
            have hnone := h v (hsub hv)
            rw [hnone] at hfield
            cases hfield
    | some y =>
        obtain ⟨v, hv, hfield, hnewest⟩ := h
        refine newestOf_unique (hrank.mono hsub) h' ?_
        by_cases hpart : v ∈ part
        · exact ⟨v, hpart, hfield, fun w hw hne => hnewest w (hsub hw) hne⟩
        · exact hall v hv hpart y hfield hnewest

end Newest

/-! ## One row -/

/-- The versions of an order or a dispute that `b` did not publish. -/
def others {V : Type} (versions : Set V) (pubkey : V → String) (b : String) : Set V :=
  {v ∈ versions | pubkey v ≠ b}

theorem others_subset {V : Type} (versions : Set V) (pubkey : V → String) (b : String) :
    others versions pubkey b ⊆ versions := fun _ hv => hv.1

/-- Some version of another publisher is kept over each of `b`'s. -/
def Outranked {V : Type} (versions : Set V) (pubkey : V → String) (rank : V → Rank)
    (b : String) : Prop :=
  ∀ v ∈ versions, pubkey v = b → ∃ w ∈ others versions pubkey b, Newer (rank w) (rank v)

/-- `b` decides nothing about an order: none of its versions is the newest, the
    first, the first to succeed, the first to be canceled or the earliest dated. -/
structure OrderApart (versions : Set (OrderVersionRow F)) (b : String) : Prop where
  outranked : Outranked versions OrderVersionRow.pubkey orderRank b
  preceded : ∀ v ∈ versions, v.pubkey = b →
    ∃ w ∈ others versions OrderVersionRow.pubkey b, w.createdAt ≤ v.createdAt
  succeeded : ∀ v ∈ versions, v.pubkey = b → v.status = "success" →
    ∃ w ∈ others versions OrderVersionRow.pubkey b,
      w.status = "success" ∧ w.createdAt ≤ v.createdAt
  canceled : ∀ v ∈ versions, v.pubkey = b → v.status = "canceled" →
    ∃ w ∈ others versions OrderVersionRow.pubkey b,
      w.status = "canceled" ∧ w.createdAt ≤ v.createdAt
  dated : ∀ v ∈ versions, v.pubkey = b → ∀ t, v.orderCreatedAt = some t →
    ∃ w ∈ others versions OrderVersionRow.pubkey b,
      ∃ t', w.orderCreatedAt = some t' ∧ t' ≤ t

/-- `b` decides nothing about a dispute: none of its versions is the newest, and
    one that is the newest to carry a field carries what the newest of the others
    does. -/
structure DisputeApart (versions : Set DisputeVersionRow) (b : String) : Prop where
  outranked : Outranked versions DisputeVersionRow.pubkey disputeRank b
  opened : ∀ v ∈ versions, v.pubkey = b → ∀ t, v.openedAt = some t →
    (∀ w ∈ versions, w.openedAt ≠ none → Newer (disputeRank v) (disputeRank w)) →
      NewestOf (others versions DisputeVersionRow.pubkey b) disputeRank
        DisputeVersionRow.openedAt (some t)
  initiated : ∀ v ∈ versions, v.pubkey = b → ∀ who, v.initiator = some who →
    (∀ w ∈ versions, w.initiator ≠ none → Newer (disputeRank v) (disputeRank w)) →
      NewestOf (others versions DisputeVersionRow.pubkey b) disputeRank
        DisputeVersionRow.initiator (some who)

section Rows

variable {V : Type} {versions : Set V} {pubkey : V → String} {rank : V → Rank} {b : String}

/-- The newest of all is not `b`'s exactly when each of `b`'s is outranked. -/
theorem outranked_iff {v v' : V} (hrank : Ranked versions rank) (hv : v ∈ versions)
    (hnewest : ∀ w ∈ versions, Newer (rank v) (rank w)) (hv' : v' ∈ others versions pubkey b)
    (hnewest' : ∀ w ∈ others versions pubkey b, Newer (rank v') (rank w)) :
    Outranked versions pubkey rank b ↔ v' = v := by
  constructor
  · intro hout
    refine hrank v' hv'.1 v hv (newer_antisymm ?_ (hnewest v' hv'.1))
    by_cases hmine : pubkey v = b
    · obtain ⟨w, hw, hnewer⟩ := hout v hv hmine
      have hwv : w = v := hrank w hw.1 v hv (newer_antisymm hnewer (hnewest w hw.1))
      exact absurd hmine (hwv ▸ hw.2)
    · exact hnewest' v ⟨hv, hmine⟩
  · rintro rfl w hw hmine
    exact ⟨v', hv', hnewest w hw⟩

/-- The condition on a least value, read on `b`'s versions only. -/
theorem covered_iff {value : V → ℤ → Prop} :
    (∀ t ∈ {t | ∃ v ∈ versions, value v t},
        ∃ t' ∈ {t | ∃ v ∈ others versions pubkey b, value v t}, t' ≤ t)
      ↔ ∀ v ∈ versions, pubkey v = b → ∀ t, value v t →
        ∃ w ∈ others versions pubkey b, ∃ t', value w t' ∧ t' ≤ t := by
  constructor
  · intro hall v hv _ t ht
    obtain ⟨t', ⟨w, hw, hvalue⟩, hle⟩ := hall t ⟨v, hv, ht⟩
    exact ⟨w, hw, t', hvalue, hle⟩
  · rintro hall t ⟨v, hv, ht⟩
    by_cases hmine : pubkey v = b
    · obtain ⟨w, hw, t', hvalue, hle⟩ := hall v hv hmine t ht
      exact ⟨t', ⟨w, hw, hvalue⟩, hle⟩
    · exact ⟨t, ⟨v, ⟨hv, hmine⟩, ht⟩, le_refl t⟩

/-- What the least of a value is over the others and over all, compared. -/
theorem leastOf_others_iff {value : V → ℤ → Prop} {m m' : Option ℤ}
    (h : LeastOf {t | ∃ v ∈ versions, value v t} m)
    (h' : LeastOf {t | ∃ v ∈ others versions pubkey b, value v t} m') :
    m' = m ↔ ∀ v ∈ versions, pubkey v = b → ∀ t, value v t →
      ∃ w ∈ others versions pubkey b, ∃ t', value w t' ∧ t' ≤ t := by
  rw [leastOf_eq_iff ?_ h h', covered_iff]
  rintro t ⟨v, hv, ht⟩
  exact ⟨v, hv.1, ht⟩

end Rows

attribute [ext] OrderRow DisputeRow

/-- The newest version carries the greatest clock. -/
theorem greatest_of_newest {V : Type} {versions : Set V} {at' : V → ℤ} {id : V → String} {v : V}
    {t : ℤ} (hv : v ∈ versions)
    (hnewest : ∀ w ∈ versions, Newer (at' v, id v) (at' w, id w))
    (ht : IsGreatest {t | ∃ v ∈ versions, at' v = t} t) : t = at' v := by
  obtain ⟨w, hw, rfl⟩ := ht.1
  refine le_antisymm ?_ (ht.2 ⟨v, hv, rfl⟩)
  rcases hnewest w hw with hlt | ⟨heq, -⟩
  · exact le_of_lt hlt
  · exact le_of_eq heq.symm

/-- A publisher with no version decides nothing. -/
theorem orderApart_of_unshared {versions : Set (OrderVersionRow F)} {b : String}
    (h : ∀ v ∈ versions, v.pubkey ≠ b) : OrderApart versions b where
  outranked v hv hb := absurd hb (h v hv)
  preceded v hv hb := absurd hb (h v hv)
  succeeded v hv hb := absurd hb (h v hv)
  canceled v hv hb := absurd hb (h v hv)
  dated v hv hb := absurd hb (h v hv)

/-- **AN ORDER'S ROW STAYS** without `b` exactly when `b` decides nothing of it. -/
theorem orderRow_eq_iff {versions : Set (OrderVersionRow F)} {b : String}
    {row row' : OrderRow F} (hrank : Ranked versions orderRank) (h : OrderRowOf versions row)
    (h' : OrderRowOf (others versions OrderVersionRow.pubkey b) row') :
    row' = row ↔ OrderApart versions b := by
  obtain ⟨v, hv, hnewest, hid, hpubkey, hstatus, hkind, hcode, hsats, hamount, hmethods,
    hpremium, hnetwork⟩ := h.latest
  obtain ⟨v', hv', hnewest', hid', hpubkey', hstatus', hkind', hcode', hsats', hamount',
    hmethods', hpremium', hnetwork'⟩ := h'.latest
  have hfirst := leastOf_others_iff (show LeastOf _ (some row.firstSeenAt) from h.firstSeenAt)
    (show LeastOf _ (some row'.firstSeenAt) from h'.firstSeenAt)
  have hsuccess := leastOf_others_iff h.successAt h'.successAt
  have hcancel := leastOf_others_iff h.canceledAt h'.canceledAt
  have hdated := leastOf_others_iff h.orderCreatedAt h'.orderCreatedAt
  constructor
  · rintro rfl
    refine ⟨fun w hw _ => ⟨v, ⟨hv, ?_⟩, hnewest w hw⟩, fun w hw hmine => ?_,
      fun w hw hmine hdone => ?_, fun w hw hmine hdone => ?_, hdated.mp rfl⟩
    · rw [← hpubkey, hpubkey']
      exact hv'.2
    · obtain ⟨u, hu, t, rfl, hle⟩ := hfirst.mp rfl w hw hmine _ rfl
      exact ⟨u, hu, hle⟩
    · obtain ⟨u, hu, t, ⟨hstate, rfl⟩, hle⟩ := hsuccess.mp rfl w hw hmine _ ⟨hdone, rfl⟩
      exact ⟨u, hu, hstate, hle⟩
    · obtain ⟨u, hu, t, ⟨hstate, rfl⟩, hle⟩ := hcancel.mp rfl w hw hmine _ ⟨hdone, rfl⟩
      exact ⟨u, hu, hstate, hle⟩
  · intro hapart
    have hsame : v' = v :=
      (outranked_iff hrank hv hnewest hv' hnewest').mp hapart.outranked
    subst hsame
    refine OrderRow.ext (hid'.trans hid.symm) (hpubkey'.trans hpubkey.symm) ?_ ?_
      (hstatus'.trans hstatus.symm) (hkind'.trans hkind.symm) (hcode'.trans hcode.symm)
      (hsats'.trans hsats.symm) (hamount'.trans hamount.symm) (hmethods'.trans hmethods.symm)
      (hpremium'.trans hpremium.symm) (hnetwork'.trans hnetwork.symm) ?_ ?_
      (hdated.mpr hapart.dated)
    · refine Option.some.inj (hfirst.mpr fun w hw hmine t ht => ?_)
      obtain ⟨u, hu, hle⟩ := hapart.preceded w hw hmine
      exact ⟨u, hu, _, rfl, ht ▸ hle⟩
    · exact (greatest_of_newest hv' hnewest' h'.lastUpdatedAt).trans
        (greatest_of_newest hv hnewest h.lastUpdatedAt).symm
    · refine hsuccess.mpr fun w hw hmine t ht => ?_
      obtain ⟨u, hu, hstate, hle⟩ := hapart.succeeded w hw hmine ht.1
      exact ⟨u, hu, _, ⟨hstate, rfl⟩, ht.2 ▸ hle⟩
    · refine hcancel.mpr fun w hw hmine t ht => ?_
      obtain ⟨u, hu, hstate, hle⟩ := hapart.canceled w hw hmine ht.1
      exact ⟨u, hu, _, ⟨hstate, rfl⟩, ht.2 ▸ hle⟩

/-- **A DISPUTE'S ROW STAYS** without `b` exactly when `b` decides nothing of it. -/
theorem disputeRow_eq_iff {versions : Set DisputeVersionRow} {b : String}
    {row row' : DisputeRow} (hrank : Ranked versions disputeRank)
    (h : DisputeRowOf versions row)
    (h' : DisputeRowOf (others versions DisputeVersionRow.pubkey b) row') :
    row' = row ↔ DisputeApart versions b := by
  obtain ⟨v, hv, hnewest, hid, hpubkey, hstatus⟩ := h.latest
  obtain ⟨v', hv', hnewest', hid', hpubkey', hstatus'⟩ := h'.latest
  have hsub := others_subset versions DisputeVersionRow.pubkey b
  have hopened := newestOf_eq_iff hrank hsub h.openedAt h'.openedAt
  have hinitiated := newestOf_eq_iff hrank hsub h.initiator h'.initiator
  constructor
  · rintro rfl
    refine ⟨fun w hw _ => ⟨v, ⟨hv, ?_⟩, hnewest w hw⟩, fun w hw hmine => ?_,
      fun w hw hmine => ?_⟩
    · rw [← hpubkey, hpubkey']
      exact hv'.2
    · exact hopened.mp rfl w hw fun hout => hout.2 hmine
    · exact hinitiated.mp rfl w hw fun hout => hout.2 hmine
  · intro hapart
    have hsame : v' = v :=
      (outranked_iff hrank hv hnewest hv' hnewest').mp hapart.outranked
    subst hsame
    have hmine : ∀ w ∈ versions, w ∉ others versions DisputeVersionRow.pubkey b →
        w.pubkey = b := fun w hw hout => not_not.mp fun hne => hout ⟨hw, hne⟩
    refine DisputeRow.ext (hid'.trans hid.symm) (hpubkey'.trans hpubkey.symm) ?_ ?_
      (hstatus'.trans hstatus.symm) ?_
    · exact hopened.mpr fun w hw hout => hapart.opened w hw (hmine w hw hout)
    · exact (greatest_of_newest hv' hnewest' h'.lastUpdatedAt).trans
        (greatest_of_newest hv hnewest h.lastUpdatedAt).symm
    · exact hinitiated.mpr fun w hw hout => hapart.initiated w hw (hmine w hw hout)

/-! ## The flag of a fee -/

/-- The fees of a set of events. -/
def feesOf (X : Externals F) (S : Finset Event) : Set FeeRow :=
  {fee | ∃ e ∈ S, readFee X e = some fee}

/-- `ORDER BY created_at, event_id`. -/
def Earlier (f g : FeeRow) : Prop :=
  f.createdAt < g.createdAt ∨ f.createdAt = g.createdAt ∧ f.eventId < g.eventId

theorem earlier_asymm {f g : FeeRow} (h : Earlier f g) : ¬ Earlier g f := by
  rintro (hlt | ⟨heq, hid⟩)
  · rcases h with h | ⟨h, -⟩ <;> omega
  · rcases h with h | ⟨-, h⟩
    · omega
    · exact lt_asymm hid h

theorem earlier_of_not {f g : FeeRow} (hne : f.eventId ≠ g.eventId) (h : ¬ Earlier f g) :
    Earlier g f := by
  rcases lt_trichotomy f.createdAt g.createdAt with hlt | heq | hgt
  · exact absurd (Or.inl hlt) h
  · rcases lt_or_gt_of_ne hne with hid | hid
    · exact absurd (Or.inr ⟨heq, hid⟩) h
    · exact Or.inr ⟨heq.symm, hid⟩
  · exact Or.inl hgt

/-- A fee is the canonical one exactly when every other of its order is later. -/
theorem flag_iff {S : Finset Event} {fees : Table String FeeRow} (h : FeesOf X S fees)
    {k : String} {row : FeeRow} (hk : fees[k]? = some row) :
    row.isDuplicate = false
      ↔ ∀ fee ∈ feesOf X S, fee.orderId = row.orderId → fee.eventId ≠ k → Earlier row fee := by
  obtain ⟨c, canonical, hc, horder, hflag, hrest⟩ := h.canonical k row hk
  constructor
  · rintro hfalse fee ⟨e, he, hfee⟩ hsame hne
    have hkc : k = c := by
      by_contra hother
      have htrue := (hrest k row hk rfl hother).1
      rw [hfalse] at htrue
      cases htrue
    subst hkc
    obtain rfl : row = canonical := Option.some.inj (hk.symm.trans hc)
    obtain ⟨dup, hrow⟩ := h.complete e he fee hfee
    have hid : e.id ≠ k := (readFee_origin hfee).1 ▸ hne
    exact (hrest e.id _ hrow hsame hid).2
  · intro hall
    by_contra htrue
    have hother : k ≠ c := by
      rintro rfl
      rw [Option.some.inj (hk.symm.trans hc)] at htrue
      exact htrue hflag
    obtain ⟨e, he, hid, hfee⟩ := h.sound c canonical hc
    have hcid : canonical.eventId = c := (readFee_origin hfee).1.trans hid
    have hmine : Earlier row canonical :=
      hall { canonical with isDuplicate := false } ⟨e, he, hfee⟩ horder
        (fun heq => hother (heq.symm.trans hcid))
    exact earlier_asymm hmine (hrest k row hk rfl hother).2

/-! ## Two runs -/

/-- The set without what `b` published. -/
def without (S : Finset Event) (b : String) : Finset Event := S.filter (·.pubkey ≠ b)

/-- Whatever describes `a`'s orders, disputes and fees is the same in both. -/
structure Undisturbed (X : Externals F) (S : Finset Event) (a : String) (db db' : Db F) :
    Prop where
  orders : ∀ orderId, (∃ v ∈ orderVersionsOf X S orderId, v.pubkey = a) →
    db'.orders[orderId]? = db.orders[orderId]?
  disputes : ∀ disputeId, (∃ v ∈ disputeVersionsOf X S disputeId, v.pubkey = a) →
    db'.disputes[disputeId]? = db.disputes[disputeId]?
  fees : ∀ (k : String) row, db.devFees[k]? = some row → row.pubkey = a →
    db'.devFees[k]? = some row

/-- `b` decides nothing under an id that `a` uses. -/
structure Apart (X : Externals F) (S : Finset Event) (a b : String) : Prop where
  orders : ∀ orderId, (∃ v ∈ orderVersionsOf X S orderId, v.pubkey = a) →
    OrderApart (orderVersionsOf X S orderId) b
  disputes : ∀ disputeId, (∃ v ∈ disputeVersionsOf X S disputeId, v.pubkey = a) →
    DisputeApart (disputeVersionsOf X S disputeId) b
  fees : ∀ f ∈ feesOf X S, f.pubkey = a → ∀ g ∈ feesOf X S, g.pubkey = b →
    g.orderId = f.orderId → Earlier g f →
      ∃ w ∈ feesOf X S, w.pubkey ≠ b ∧ w.orderId = f.orderId ∧ Earlier w f

section Runs

variable {S : Finset Event} {a b : String}

theorem versions_without {V : Type} {read : Event → Option V} {pubkey group : V → String}
    (horigin : ∀ e v, read e = some v → pubkey v = e.pubkey) (g : String) :
    {v | (∃ e ∈ without S b, read e = some v) ∧ group v = g}
      = others {v | (∃ e ∈ S, read e = some v) ∧ group v = g} pubkey b := by
  refine Set.ext fun v => ?_
  constructor
  · rintro ⟨⟨e, he, hread⟩, hg⟩
    obtain ⟨he, hne⟩ := Finset.mem_filter.mp he
    exact ⟨⟨⟨e, he, hread⟩, hg⟩, horigin e v hread ▸ hne⟩
  · rintro ⟨⟨⟨e, he, hread⟩, hg⟩, hne⟩
    exact ⟨⟨e, Finset.mem_filter.mpr ⟨he, horigin e v hread ▸ hne⟩, hread⟩, hg⟩

/-- Distinct events stand at distinct ranks. -/
theorem ranked_versions {V : Type} {read : Event → Option V} {group : V → String}
    {rank : V → Rank} (hdistinct : ∀ e ∈ S, ∀ e' ∈ S, e.id = e'.id → e = e')
    (horigin : ∀ e v, read e = some v → (rank v).2 = e.id) (g : String) :
    Ranked {v | (∃ e ∈ S, read e = some v) ∧ group v = g} rank := by
  rintro v ⟨⟨e, he, hread⟩, -⟩ w ⟨⟨e', he', hread'⟩, -⟩ hrank
  have hid : e.id = e'.id := by
    rw [← horigin e v hread, ← horigin e' w hread', hrank]
  rw [hdistinct e he e' he' hid, hread'] at hread
  exact (Option.some.inj hread).symm

/-- The fees of the others are the fees that are not `b`'s. -/
theorem mem_feesOf_without {fee : FeeRow} :
    fee ∈ feesOf X (without S b) ↔ fee ∈ feesOf X S ∧ fee.pubkey ≠ b := by
  constructor
  · rintro ⟨e, he, hread⟩
    obtain ⟨he, hne⟩ := Finset.mem_filter.mp he
    exact ⟨⟨e, he, hread⟩, (readFee_origin hread).2.1 ▸ hne⟩
  · rintro ⟨⟨e, he, hread⟩, hne⟩
    exact ⟨e, Finset.mem_filter.mpr ⟨he, (readFee_origin hread).2.1 ▸ hne⟩, hread⟩

/-- **A FEE'S FLAG STAYS** without `b` exactly when no fee of `b` comes before one
    that nothing else comes before. -/
theorem fee_eq_iff (hdistinct : ∀ e ∈ S, ∀ e' ∈ S, e.id = e'.id → e = e')
    {fees fees' : Table String FeeRow} (h : FeesOf X S fees)
    (h' : FeesOf X (without S b) fees') {k : String} {row : FeeRow}
    (hk : fees[k]? = some row) (hmine : row.pubkey ≠ b) :
    fees'[k]? = some row
      ↔ ∀ g ∈ feesOf X S, g.pubkey = b → g.orderId = row.orderId → Earlier g row →
        ∃ w ∈ feesOf X S, w.pubkey ≠ b ∧ w.orderId = row.orderId ∧ Earlier w row := by
  obtain ⟨e, he, hid, hfee⟩ := h.sound k row hk
  have hkey : row.eventId = k := (readFee_origin hfee).1.trans hid
  have hkept : e ∈ without S b :=
    Finset.mem_filter.mpr ⟨he, (readFee_origin hfee).2.1 ▸ hmine⟩
  obtain ⟨dup, hk'⟩ := h'.complete e hkept _ hfee
  rw [hid] at hk'
  have hflag := flag_iff h hk
  have hflag' := flag_iff h' hk'
  have hnotself : ∀ fee ∈ feesOf X S, Earlier fee row → fee.eventId ≠ k := by
    rintro fee ⟨e', he', hread⟩ hearlier heq
    have hsame := hdistinct e' he' e he ((readFee_origin hread).1.symm.trans (heq.trans hid.symm))
    rw [hsame, hfee] at hread
    have hself : Earlier row row := by
      rw [← Option.some.inj hread] at hearlier
      exact hearlier
    exact earlier_asymm hself hself
  -- Fewer fees can only clear the flag, so the flags differ one way only.
  have hsame : fees'[k]? = some row ↔ (dup = false → row.isDuplicate = false) := by
    rw [hk', Option.some.injEq]
    constructor
    · rintro heq rfl
      rw [← heq]
    · intro himp
      have hdup : dup = row.isDuplicate := by
        cases hrow : row.isDuplicate with
        | false =>
            refine hflag'.mpr fun fee hin => ?_
            exact hflag.mp hrow fee (mem_feesOf_without.mp hin).1
        | true =>
            cases dup with
            | true => rfl
            | false => exact hrow.symm.trans (himp rfl) |>.symm
      rw [hdup]
  rw [hsame]
  constructor
  · intro himp g hg _ horder hearlier
    by_contra hnone
    have hclear : dup = false := by
      refine hflag'.mpr fun fee hin hsameorder hne => ?_
      obtain ⟨hall, hother⟩ := mem_feesOf_without.mp hin
      by_contra hlate
      exact hnone ⟨fee, hall, hother, hsameorder, earlier_of_not (hkey ▸ hne.symm) hlate⟩
    exact earlier_asymm (hflag.mp (himp hclear) g hg horder (hnotself g hg hearlier)) hearlier
  · intro hall hclear
    refine hflag.mpr fun fee hin horder hne => ?_
    by_cases hb : fee.pubkey = b
    · by_contra hlate
      obtain ⟨w, hw, hwb, hworder, hearlier⟩ :=
        hall fee hin hb horder (earlier_of_not (hkey ▸ hne.symm) hlate)
      exact earlier_asymm (hflag'.mp hclear w (mem_feesOf_without.mpr ⟨hw, hwb⟩) hworder
        (hnotself w hw hearlier)) hearlier
    · exact hflag'.mp hclear fee (mem_feesOf_without.mpr ⟨hin, hb⟩) horder hne

/-- A row of the others exists where `a` has a version, and so does one of all. -/
theorem order_eq_iff (hdistinct : ∀ e ∈ S, ∀ e' ∈ S, e.id = e'.id → e = e')
    {orders orders' : Table String (OrderRow F)} (h : OrdersOf X S orders)
    (h' : OrdersOf X (without S b) orders') (hab : a ≠ b) {orderId : String}
    (hmine : ∃ v ∈ orderVersionsOf X S orderId, v.pubkey = a) :
    orders'[orderId]? = orders[orderId]? ↔ OrderApart (orderVersionsOf X S orderId) b := by
  obtain ⟨v, hv, hpubkey⟩ := hmine
  have hothers : orderVersionsOf X (without S b) orderId
      = others (orderVersionsOf X S orderId) OrderVersionRow.pubkey b :=
    versions_without (fun e v hread => (readOrder_origin hread).2.1) orderId
  have hrank : Ranked (orderVersionsOf X S orderId) orderRank :=
    ranked_versions hdistinct (fun e v hread => (readOrder_origin hread).1) orderId
  have hrow := h orderId
  have hrow' := h' orderId
  cases hold : orders[orderId]? with
  | none =>
      rw [hold] at hrow
      have hempty : orderVersionsOf X S orderId = ∅ := hrow
      rw [hempty] at hv
      exact hv.elim
  | some row =>
      cases hnew : orders'[orderId]? with
      | none =>
          rw [hnew] at hrow'
          have hempty : orderVersionsOf X (without S b) orderId = ∅ := hrow'
          have hin : v ∈ orderVersionsOf X (without S b) orderId :=
            hothers ▸ ⟨hv, hpubkey ▸ hab⟩
          rw [hempty] at hin
          exact hin.elim
      | some row' =>
          rw [hold] at hrow
          rw [hnew] at hrow'
          rw [Option.some.injEq]
          exact orderRow_eq_iff hrank hrow (hothers ▸ hrow')

theorem dispute_eq_iff (hdistinct : ∀ e ∈ S, ∀ e' ∈ S, e.id = e'.id → e = e')
    {disputes disputes' : Table String DisputeRow} (h : DisputesOf X S disputes)
    (h' : DisputesOf X (without S b) disputes') (hab : a ≠ b) {disputeId : String}
    (hmine : ∃ v ∈ disputeVersionsOf X S disputeId, v.pubkey = a) :
    disputes'[disputeId]? = disputes[disputeId]?
      ↔ DisputeApart (disputeVersionsOf X S disputeId) b := by
  obtain ⟨v, hv, hpubkey⟩ := hmine
  have hothers : disputeVersionsOf X (without S b) disputeId
      = others (disputeVersionsOf X S disputeId) DisputeVersionRow.pubkey b :=
    versions_without (fun e v hread => (readDispute_origin hread).2.1) disputeId
  have hrank : Ranked (disputeVersionsOf X S disputeId) disputeRank :=
    ranked_versions hdistinct (fun e v hread => (readDispute_origin hread).1) disputeId
  have hrow := h disputeId
  have hrow' := h' disputeId
  cases hold : disputes[disputeId]? with
  | none =>
      rw [hold] at hrow
      have hempty : disputeVersionsOf X S disputeId = ∅ := hrow
      rw [hempty] at hv
      exact hv.elim
  | some row =>
      cases hnew : disputes'[disputeId]? with
      | none =>
          rw [hnew] at hrow'
          have hempty : disputeVersionsOf X (without S b) disputeId = ∅ := hrow'
          have hin : v ∈ disputeVersionsOf X (without S b) disputeId :=
            hothers ▸ ⟨hv, hpubkey ▸ hab⟩
          rw [hempty] at hin
          exact hin.elim
      | some row' =>
          rw [hold] at hrow
          rw [hnew] at hrow'
          rw [Option.some.injEq]
          exact disputeRow_eq_iff hrank hrow (hothers ▸ hrow')

end Runs

/-- **A PUBLISHER IS UNDISTURBED EXACTLY WHEN THE OTHER DECIDES NOTHING** under an
    id the two of them share: over every set of events, every two deliveries of
    it and of what is left without `b`. -/
theorem undisturbed_iff_apart {S : Finset Event}
    (hdistinct : ∀ e ∈ S, ∀ e' ∈ S, e.id = e'.id → e = e')
    (hwanted : ∀ e ∈ S, Wanted X P e) {a b : String} (hab : a ≠ b)
    {attempts attempts' : List Attempt} (h : Delivers X P S attempts)
    (h' : Delivers X P (without S b) attempts') :
    Undisturbed X S a (attemptAll X P attempts Db.empty) (attemptAll X P attempts' Db.empty)
      ↔ Apart X S a b := by
  have hsub : ∀ e ∈ without S b, e ∈ S := fun e he => (Finset.mem_filter.mp he).1
  have harch := archiveOf_run hdistinct hwanted h
  have harch' := archiveOf_run (fun e he e' he' => hdistinct e (hsub e he) e' (hsub e' he'))
    (fun e he => hwanted e (hsub e he)) h'
  have hset : Settled X (attemptAll X P attempts Db.empty) :=
    attemptAll_settled attempts settled_empty
  have hset' : Settled X (attemptAll X P attempts' Db.empty) :=
    attemptAll_settled attempts' settled_empty
  have horders := fun orderId (hmine : ∃ v ∈ orderVersionsOf X S orderId, v.pubkey = a) =>
    order_eq_iff hdistinct (ordersOf_settled harch hset) (ordersOf_settled harch' hset') hab
      hmine
  have hdisputes :=
    fun disputeId (hmine : ∃ v ∈ disputeVersionsOf X S disputeId, v.pubkey = a) =>
      dispute_eq_iff hdistinct (disputesOf_settled harch hset)
        (disputesOf_settled harch' hset') hab hmine
  have hfees := feesOf_settled harch hset
  have hfees' := feesOf_settled harch' hset'
  constructor
  · intro hun
    refine ⟨fun orderId hmine => (horders orderId hmine).mp (hun.orders orderId hmine),
      fun disputeId hmine => (hdisputes disputeId hmine).mp (hun.disputes disputeId hmine), ?_⟩
    rintro f ⟨e, he, hread⟩ hmine
    obtain ⟨dup, hk⟩ := hfees.complete e he f hread
    exact (fee_eq_iff hdistinct hfees hfees' hk (hmine ▸ hab)).mp (hun.fees _ _ hk hmine)
  · intro hapart
    refine ⟨fun orderId hmine => (horders orderId hmine).mpr (hapart.orders orderId hmine),
      fun disputeId hmine => (hdisputes disputeId hmine).mpr (hapart.disputes disputeId hmine),
      fun k row hk hmine => ?_⟩
    obtain ⟨e, he, -, hread⟩ := hfees.sound k row hk
    have hfirst := hapart.fees _ ⟨e, he, hread⟩ hmine
    exact (fee_eq_iff hdistinct hfees hfees' hk (hmine ▸ hab)).mpr hfirst

/-! ## Two publishers, one id -/

/-- Another publisher. -/
def mallory : String := "3bf0c63fcb93463407af97a5e5ee64fa883d107ef9e558472c4eb9aaaefa459d"

/-- Mallory cancels alice's order, under her own key and alice's order id. -/
def mallorysCancel : Event :=
  Convergence.orderEvent "1000000000000000000000000000000000000000000000000000000000000021"
    mallory 1785600300 "canceled"

/-- An order event under another id. -/
def mallorysOrder : Event :=
  { mallorysCancel with
    id := "1000000000000000000000000000000000000000000000000000000000000022"
    tags := ["d", "9b2f3c1e-5d0a-4e7b-8c11-2f6a90d1c002"] :: mallorysCancel.tags.tail }

def hijack : Externals Int := Externals.over [pendingOrder, mallorysCancel] (by decide) []

def beside : Externals Int := Externals.over [pendingOrder, mallorysOrder] (by decide) []

/-- One committed call for each event. -/
def delivered (events : List Event) : List Attempt :=
  events.map fun e => ⟨⟨e, "wss://a", 1785601000⟩, true⟩

theorem delivers_delivered (X : Externals F) (P : Policy) (events : List Event) :
    Delivers X P events.toFinset (delivered events) := by
  constructor
  · intro a ha
    obtain ⟨e, he, rfl⟩ := List.mem_map.mp ha
    exact Or.inl (List.mem_toFinset.mpr he)
  · intro e he
    exact ⟨_, List.mem_map_of_mem (List.mem_toFinset.mp he), rfl, rfl⟩

/-- Orders under two ids leave each other alone. -/
theorem orders_beside_undisturbed :
    Undisturbed beside [pendingOrder, mallorysOrder].toFinset alice
      (attemptAll beside openPolicy (delivered [pendingOrder, mallorysOrder]) Db.empty)
      (attemptAll beside openPolicy (delivered [pendingOrder]) Db.empty) := by
  refine (undisturbed_iff_apart (b := mallory) (by decide) ?_ (by decide)
    (delivers_delivered _ _ _) ?_).mpr ?_
  · intro e he
    rw [List.mem_toFinset] at he
    simp only [List.mem_cons, List.not_mem_nil, or_false] at he
    rcases he with rfl | rfl
    · exact ⟨by decide, ⟨_, rfl⟩, by decide⟩
    · exact ⟨by decide, ⟨_, rfl⟩, by decide⟩
  · have hset : without [pendingOrder, mallorysOrder].toFinset mallory
        = [pendingOrder].toFinset := by decide
    rw [hset]
    exact delivers_delivered _ _ _
  · have halice : (readOrder beside pendingOrder).map OrderVersionRow.orderId
        = some "9b2f3c1e-5d0a-4e7b-8c11-2f6a90d1c001" := by decide +kernel
    have hmallory : (readOrder beside mallorysOrder).map OrderVersionRow.orderId
        = some "9b2f3c1e-5d0a-4e7b-8c11-2f6a90d1c002" := by decide +kernel
    have hkinds : ∀ e ∈ [pendingOrder, mallorysOrder],
        readDispute beside e = none ∧ readFee beside e = none := by decide +kernel
    constructor
    · rintro orderId ⟨v, ⟨⟨e, he, hread⟩, hv⟩, hpubkey⟩
      refine orderApart_of_unshared ?_
      rintro w ⟨⟨e', he', hread'⟩, hw⟩ hwpubkey
      rw [(readOrder_origin hread).2.1] at hpubkey
      rw [(readOrder_origin hread').2.1] at hwpubkey
      simp only [List.mem_toFinset, List.mem_cons, List.not_mem_nil, or_false] at he he'
      rcases he with rfl | rfl
      · rcases he' with rfl | rfl
        · exact absurd hwpubkey (by decide)
        · rw [hread, Option.map_some, Option.some.injEq] at halice
          rw [hread', Option.map_some, Option.some.injEq] at hmallory
          rw [← hv, halice, hmallory] at hw
          exact absurd hw (by decide)
      · exact absurd hpubkey (by decide)
    · rintro disputeId ⟨v, ⟨⟨e, he, hread⟩, -⟩, -⟩
      rw [(hkinds e (List.mem_toFinset.mp he)).1] at hread
      cases hread
    · rintro f ⟨e, he, hread⟩
      rw [(hkinds e (List.mem_toFinset.mp he)).2] at hread
      cases hread

/-- **A STRANGER CANCELS AN ORDER**: the row of alice's order, which she left
    pending, is mallory's and canceled. -/
theorem stranger_cancels_order :
    (∀ e ∈ [pendingOrder, mallorysCancel], Wanted hijack openPolicy e)
      ∧ Delivers hijack openPolicy [pendingOrder, mallorysCancel].toFinset
        (delivered [pendingOrder, mallorysCancel])
      ∧ Delivers hijack openPolicy (without [pendingOrder, mallorysCancel].toFinset mallory)
        (delivered [pendingOrder])
      ∧ ¬ Undisturbed hijack [pendingOrder, mallorysCancel].toFinset alice
        (attemptAll hijack openPolicy (delivered [pendingOrder, mallorysCancel]) Db.empty)
        (attemptAll hijack openPolicy (delivered [pendingOrder]) Db.empty) := by
  refine ⟨fun e he => ?_, delivers_delivered _ _ _, ?_, fun hun => ?_⟩
  · simp only [List.mem_cons, List.not_mem_nil, or_false] at he
    rcases he with rfl | rfl
    · exact ⟨by decide, ⟨_, rfl⟩, by decide⟩
    · exact ⟨by decide, ⟨_, rfl⟩, by decide⟩
  · have hset : without [pendingOrder, mallorysCancel].toFinset mallory
        = [pendingOrder].toFinset := by decide
    rw [hset]
    exact delivers_delivered _ _ _
  · obtain ⟨v, hread, hv⟩ : ∃ v, readOrder hijack pendingOrder = some v
        ∧ v.orderId = "9b2f3c1e-5d0a-4e7b-8c11-2f6a90d1c001" :=
      Option.map_eq_some_iff.mp (by decide +kernel)
    have hrow := hun.orders _ ⟨v, ⟨⟨pendingOrder, by decide, hread⟩, hv⟩,
      (readOrder_origin hread).2.1⟩
    have hboth : (attemptAll hijack openPolicy (delivered [pendingOrder]) Db.empty).orders[
        "9b2f3c1e-5d0a-4e7b-8c11-2f6a90d1c001"]?.map OrderRow.finalStatus = some "pending"
        ∧ (attemptAll hijack openPolicy (delivered [pendingOrder, mallorysCancel])
          Db.empty).orders["9b2f3c1e-5d0a-4e7b-8c11-2f6a90d1c001"]?.map OrderRow.finalStatus
          = some "canceled" := by decide +kernel
    rw [hrow, hboth.2] at hboth
    exact absurd hboth.1 (by decide)

end Publishers
