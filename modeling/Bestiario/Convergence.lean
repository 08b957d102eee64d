import Bestiario.Derived

/-! # Projections do not depend on arrival order

    Backfill walks backwards while sync runs forwards, relays repeat each
    other and a failed transaction is retried.  Whatever the interleaving, the
    tables a report reads are a function of the SET of events delivered.

    The specification below is written over that set and mentions no table:
    `OrdersOf`, `DisputesOf` and `FeesOf` say, row by row, which version each
    column comes from.  The route from the code to it is the invariant of
    `Derived`: nothing is ever owed, so each projection answers from its
    versions, and the versions are the events of the set. -/

namespace Convergence

open Keyed Wire Parse Repo Pipeline Derived

variable {F : Type} {X : Externals F} {P : Policy}

/-! ## The specification -/

/-- The clock and the id a version is ranked by. -/
abbrev Rank := ℤ × String

/-- `a` is kept over `b`: a later clock, ties to the lower id. -/
def Newer (a b : Rank) : Prop := b.1 < a.1 ∨ a.1 = b.1 ∧ a.2 ≤ b.2

/-- `value` is the least element of `s`, `none` when there is none. -/
def LeastOf (s : Set ℤ) : Option ℤ → Prop
  | some t => IsLeast s t
  | none => s = ∅

/-- `value` is what the newest of the versions carrying `field` carries. -/
def NewestOf {V T : Type} (versions : Set V) (rank : V → Rank) (field : V → Option T) :
    Option T → Prop
  | some x => ∃ v ∈ versions, field v = some x ∧
      ∀ w ∈ versions, field w ≠ none → Newer (rank v) (rank w)
  | none => ∀ v ∈ versions, field v = none

/-- Where a version of an order stands. -/
def orderRank (row : OrderVersionRow F) : Rank := (row.createdAt, row.eventId)

/-- Where a version of a dispute stands. -/
def disputeRank (row : DisputeVersionRow) : Rank := (row.createdAt, row.eventId)

/-- One row of `orders`, from the versions of that order. -/
structure OrderRowOf (versions : Set (OrderVersionRow F)) (row : OrderRow F) : Prop where
  latest : ∃ v ∈ versions, (∀ w ∈ versions, Newer (orderRank v) (orderRank w)) ∧
    row.orderId = v.orderId ∧ row.pubkey = v.pubkey ∧ row.finalStatus = v.status ∧
    row.kind = v.kind ∧ row.fiatCode = v.fiatCode ∧ row.amountSats = v.amountSats ∧
    row.fiatAmount = v.fiatAmount ∧ row.paymentMethods = v.paymentMethods ∧
    row.premium = v.premium ∧ row.network = v.network
  firstSeenAt : IsLeast {t | ∃ v ∈ versions, v.createdAt = t} row.firstSeenAt
  lastUpdatedAt : IsGreatest {t | ∃ v ∈ versions, v.createdAt = t} row.lastUpdatedAt
  successAt : LeastOf {t | ∃ v ∈ versions, v.status = "success" ∧ v.createdAt = t}
    row.successAt
  canceledAt : LeastOf {t | ∃ v ∈ versions, v.status = "canceled" ∧ v.createdAt = t}
    row.canceledAt
  orderCreatedAt : LeastOf {t | ∃ v ∈ versions, v.orderCreatedAt = some t}
    row.orderCreatedAt

/-- One row of `disputes`, from the versions of that dispute. -/
structure DisputeRowOf (versions : Set DisputeVersionRow) (row : DisputeRow) : Prop where
  latest : ∃ v ∈ versions, (∀ w ∈ versions, Newer (disputeRank v) (disputeRank w)) ∧
    row.disputeId = v.disputeId ∧ row.pubkey = v.pubkey ∧ row.finalStatus = v.status
  lastUpdatedAt : IsGreatest {t | ∃ v ∈ versions, v.createdAt = t} row.lastUpdatedAt
  openedAt : NewestOf versions disputeRank DisputeVersionRow.openedAt row.openedAt
  initiator : NewestOf versions disputeRank DisputeVersionRow.initiator row.initiator

/-- The versions of one order among a set of events. -/
def orderVersionsOf (X : Externals F) (S : Finset Event) (orderId : String) :
    Set (OrderVersionRow F) :=
  {v | (∃ e ∈ S, readOrder X e = some v) ∧ v.orderId = orderId}

/-- The versions of one dispute among a set of events. -/
def disputeVersionsOf (X : Externals F) (S : Finset Event) (disputeId : String) :
    Set DisputeVersionRow :=
  {v | (∃ e ∈ S, readDispute X e = some v) ∧ v.disputeId = disputeId}

/-- `orders`: one row per order of the set, and no other. -/
def OrdersOf (X : Externals F) (S : Finset Event) (orders : Table String (OrderRow F)) :
    Prop :=
  ∀ orderId : String, match orders[orderId]? with
    | some row => OrderRowOf (orderVersionsOf X S orderId) row
    | none => orderVersionsOf X S orderId = ∅

/-- `disputes`: one row per dispute of the set, and no other. -/
def DisputesOf (X : Externals F) (S : Finset Event) (disputes : Table String DisputeRow) :
    Prop :=
  ∀ disputeId : String, match disputes[disputeId]? with
    | some row => DisputeRowOf (disputeVersionsOf X S disputeId) row
    | none => disputeVersionsOf X S disputeId = ∅

/-- `dev_fees`: the fees of the set, of which the earliest of each order, and
    it alone, is not a duplicate. -/
structure FeesOf (X : Externals F) (S : Finset Event) (fees : Table String FeeRow) :
    Prop where
  sound : ∀ (k : String) row, fees[k]? = some row →
    ∃ e ∈ S, e.id = k ∧ readFee X e = some { row with isDuplicate := false }
  complete : ∀ e ∈ S, ∀ fee, readFee X e = some fee →
    ∃ isDuplicate, fees[e.id]? = some { fee with isDuplicate }
  canonical : ∀ (a : String) fee, fees[a]? = some fee →
    ∃ (k : String) (row : FeeRow), fees[k]? = some row ∧ row.orderId = fee.orderId ∧
      row.isDuplicate = false ∧
      ∀ (b : String) other, fees[b]? = some other → other.orderId = fee.orderId → b ≠ k →
        other.isDuplicate = true ∧
        (row.createdAt < other.createdAt ∨
          row.createdAt = other.createdAt ∧ row.eventId < other.eventId)

/-! ## One projection, read off its versions -/

theorem leastOf_minimum {V : Type} {t : Table String V} {p : V → Bool} {f : V → Option ℤ}
    {s : Set ℤ} (hs : ∀ b, b ∈ s ↔ ∃ (k : String) (v : V), t[k]? = some v ∧ p v = true ∧
      f v = some b) : LeastOf s (minimum f t p) := by
  cases hm : minimum f t p with
  | none =>
      refine Set.eq_empty_iff_forall_notMem.mpr (fun b hb => ?_)
      obtain ⟨k, v, hk, hp, hf⟩ := (hs b).mp hb
      rw [minimum_eq_none_iff.mp hm k v hk hp] at hf
      exact nomatch hf
  | some b =>
      obtain ⟨hmem, hle⟩ := minimum_eq_some_iff.mp hm
      refine ⟨(hs b).mpr hmem, fun c hc => ?_⟩
      obtain ⟨k, v, hk, hp, hf⟩ := (hs c).mp hc
      exact hle k v c hk hp hf

/-- The rows of a table that belong to one group. -/
def groupOf {V : Type} (t : Table String V) (group : V → String) (g : String) : Set V :=
  {v | (∃ k : String, t[k]? = some v) ∧ group v = g}

theorem orderRowOf_projected {t : Table String (OrderVersionRow F)} {orderId : String}
    {row : OrderRow F} (h : Orders.projected t orderId = some row) :
    OrderRowOf (groupOf t OrderVersionRow.orderId orderId) row := by
  simp only [Orders.projected, Option.bind_eq_bind, Option.bind_eq_some_iff] at h
  obtain ⟨latest, hf, lo, hlo, hi, hhi, h⟩ := h
  cases h
  obtain ⟨hmem, hp⟩ := first_mem hf
  obtain ⟨⟨k₁, v₁, hk₁, hp₁, hv₁⟩, hlo⟩ := minimum_eq_some_iff.mp hlo
  obtain ⟨⟨k₂, v₂, hk₂, hp₂, hv₂⟩, hhi⟩ := maximum_eq_some_iff.mp hhi
  refine ⟨⟨latest, ⟨hmem, eq_of_beq hp⟩, ?_, rfl, rfl, rfl, rfl, rfl, rfl, rfl, rfl, rfl,
    rfl⟩, ⟨?_, ?_⟩, ⟨?_, ?_⟩, leastOf_minimum ?_, leastOf_minimum ?_,
    leastOf_minimum ?_⟩
  · rintro w ⟨⟨k, hk⟩, hw⟩
    have hle := first_le hf hk (beq_iff_eq.mpr hw)
    rw [Orders.newest, descAsc_le_iff] at hle
    exact hle
  · exact ⟨v₁, ⟨⟨k₁, hk₁⟩, eq_of_beq hp₁⟩, Option.some.inj hv₁⟩
  · rintro t ⟨v, ⟨⟨k, hk⟩, hv⟩, rfl⟩
    exact hlo k v _ hk (beq_iff_eq.mpr hv) rfl
  · exact ⟨v₂, ⟨⟨k₂, hk₂⟩, eq_of_beq hp₂⟩, Option.some.inj hv₂⟩
  · rintro t ⟨v, ⟨⟨k, hk⟩, hv⟩, rfl⟩
    exact hhi k v _ hk (beq_iff_eq.mpr hv) rfl
  all_goals
    intro b
    simp only [groupOf, Orders.whenStatus, Set.mem_ofPred_eq, beq_iff_eq,
      Option.ite_none_right_eq_some, Option.some.injEq]
    constructor
    · rintro ⟨v, ⟨⟨k, hk⟩, hv⟩, hb⟩
      exact ⟨k, v, hk, hv, hb⟩
    · rintro ⟨k, v, hk, hv, hb⟩
      exact ⟨v, ⟨⟨k, hk⟩, hv⟩, hb⟩

/-- A subquery `WHERE field IS NOT NULL ORDER BY … LIMIT 1`. -/
theorem newestOf_first {T : Type} {t : Table String DisputeVersionRow}
    {disputeId : String} (field : DisputeVersionRow → Option T) :
    NewestOf (groupOf t DisputeVersionRow.disputeId disputeId) disputeRank field
      ((first Disputes.newest t fun row =>
        row.disputeId == disputeId && (field row).isSome).bind field) := by
  cases hf : first Disputes.newest t fun row =>
      row.disputeId == disputeId && (field row).isSome with
  | none =>
      rintro v ⟨⟨k, hk⟩, hv⟩
      have := (first_eq_none_iff _).mp hf k v hk
      rw [beq_iff_eq.mpr hv, Bool.true_and] at this
      exact Option.not_isSome_iff_eq_none.mp (by rw [this]; exact Bool.false_ne_true)
  | some v =>
      obtain ⟨hmem, hp⟩ := first_mem hf
      obtain ⟨hid, hsome⟩ := Bool.and_eq_true_iff.mp hp
      obtain ⟨x, hx⟩ := Option.isSome_iff_exists.mp hsome
      rw [Option.bind_some, hx]
      refine ⟨v, ⟨hmem, eq_of_beq hid⟩, hx, ?_⟩
      rintro w ⟨⟨k, hk⟩, hw⟩ hne
      have hpw : (w.disputeId == disputeId && (field w).isSome) = true := by
        rw [beq_iff_eq.mpr hw, Bool.true_and]
        exact Option.isSome_iff_ne_none.mpr hne
      have hle := first_le hf hk hpw
      rw [Disputes.newest, descAsc_le_iff] at hle
      exact hle

theorem disputeRowOf_projected {t : Table String DisputeVersionRow} {disputeId : String}
    {row : DisputeRow} (h : Disputes.projected t disputeId = some row) :
    DisputeRowOf (groupOf t DisputeVersionRow.disputeId disputeId) row := by
  simp only [Disputes.projected, Option.bind_eq_bind, Option.bind_eq_some_iff] at h
  obtain ⟨latest, hf, hi, hhi, h⟩ := h
  cases h
  obtain ⟨hmem, hp⟩ := first_mem hf
  obtain ⟨⟨k, v, hk, hv, hhi'⟩, hhi⟩ := maximum_eq_some_iff.mp hhi
  refine ⟨⟨latest, ⟨hmem, eq_of_beq hp⟩, ?_, rfl, rfl, rfl⟩, ⟨?_, ?_⟩,
    newestOf_first _, newestOf_first _⟩
  · rintro w ⟨⟨k, hk⟩, hw⟩
    have hle := first_le hf hk (beq_iff_eq.mpr hw)
    rw [Disputes.newest, descAsc_le_iff] at hle
    exact hle
  · exact ⟨v, ⟨⟨k, hk⟩, eq_of_beq hv⟩, Option.some.inj hhi'⟩
  · rintro t ⟨w, ⟨⟨k, hk⟩, hw⟩, rfl⟩
    exact hhi k w _ hk (beq_iff_eq.mpr hw) rfl

/-! ## The archive of a set of events -/

/-- An admitted order, dispute or dev fee that its parser can read. -/
structure Wanted (X : Externals F) (P : Policy) (e : Event) : Prop where
  admission : admission X P e = none
  reads : ∃ p, parse X e = .ok p
  kind : e.kind = orderKind ∨ e.kind = disputeKind ∨ e.kind = devFeeKind

/-- The attempts deliver the set: every event of it is committed at least
    once, and whatever else arrives is not an event of these three kinds that
    the pipeline would take. -/
structure Delivers (X : Externals F) (P : Policy) (S : Finset Event)
    (attempts : List Attempt) : Prop where
  only : ∀ a ∈ attempts, a.call.event ∈ S ∨ ¬ Wanted X P a.call.event
  all : ∀ e ∈ S, ∃ a ∈ attempts, a.call.event = e ∧ a.committed = true

/-- A wanted event always reaches the archive: no vouching, no thinning. -/
theorem archives_of_wanted {e : Event} (h : Wanted X P e) (db : Db F) :
    archives X P e db = true := by
  obtain ⟨p, hp⟩ := h.reads
  have hvouch : vouchedFor P e db = none := by
    rw [vouchedFor, if_pos]
    rcases h.kind with hk | hk | hk
    all_goals
      rw [hk]
      rfl
  have hquiet : parsedHeartbeat p = .none := by
    rcases parse_cases hp with ⟨v, rfl, -⟩ | ⟨v, rfl, -⟩ | ⟨v, rfl, -⟩ | ⟨v, rfl, hv⟩ |
      ⟨v, rfl, hv⟩ | ⟨v, rfl, hv⟩
    · rfl
    · rfl
    · rfl
    · exact absurd h.kind (by rw [(parseInfo_origin hv).1]; decide)
    · exact absurd h.kind (by rw [(parseRates_origin hv).1]; decide)
    · exact absurd h.kind (by rw [(parseRelayList_origin hv).1]; decide)
  rw [archives, kept, h.admission, hvouch, hp]
  dsimp only
  rw [hquiet]
  rfl

/-- Two verified events with one id are wanted together. -/
theorem wanted_of_id {e e' : Event} (h : Wanted X P e) (hadm : Pipeline.admission X P e' = none)
    (hv : X.verify e = true) (hv' : X.verify e' = true) (hid : e.id = e'.id) :
    Wanted X P e' := by
  have hkind : e.kind = e'.kind := by
    have hbody := X.verify_body e e' hv hv' hid
    simp only [Event.body, Prod.mk.injEq] at hbody
    exact hbody.2.2.1
  exact ⟨hadm, parse_eq_of_id hv hv' hid ▸ h.reads, hkind ▸ h.kind⟩

/-- What the archive holds once `done` has been committed. -/
structure ArchiveOf (X : Externals F) (P : Policy) (S : Finset Event) (done : Event → Prop)
    (db : Db F) : Prop where
  admitted : ∀ (k : String) r, db.events[k]? = some r → admission X P r.rawJson = none
  only : ∀ (k : String) r, db.events[k]? = some r → Wanted X P r.rawJson → r.rawJson ∈ S
  present : ∀ e ∈ S, done e → ∃ r, db.events[e.id]? = some r ∧ r.rawJson = e

section Run

variable {S : Finset Event} (hdistinct : ∀ e ∈ S, ∀ e' ∈ S, e.id = e'.id → e = e')
  (hwanted : ∀ e ∈ S, Wanted X P e)

include hdistinct hwanted

/-- **STEP**: one committed call puts its event in place and moves no other. -/
theorem archiveOf_ingest {done : Event → Prop} {db : Db F} {c : Call}
    (hset : Settled X db) (h : ArchiveOf X P S done db)
    (honly : c.event ∈ S ∨ ¬ Wanted X P c.event) :
    ArchiveOf X P S (fun e => done e ∨ e = c.event) (ingest X P c db).2 := by
  refine ⟨?_, ?_, ?_⟩
  · intro k r hk
    rcases ingest_events_cases hk with hold | ⟨harch, -, rfl⟩
    · exact h.admitted k r hold
    · exact admission_of_archives harch
  · intro k r hk hw
    rcases ingest_events_cases hk with hold | ⟨-, -, rfl⟩
    · exact h.only k r hold hw
    · exact honly.resolve_right (fun hno => hno hw)
  · rintro e he (hdone | rfl)
    · obtain ⟨r, hr, hraw⟩ := h.present e he hdone
      exact ⟨r, ingest_events_mono P c hr, hraw⟩
    · have harch := archives_of_wanted (hwanted _ he) db
      rw [ingest_events, harch, if_pos rfl, getElem?_insertIfNew_eq, if_pos rfl]
      cases hold : db.events[c.event.id]? with
      | none => exact ⟨c.record, rfl, rfl⟩
      | some r =>
          -- The id is taken: by the same body, hence by the same event.
          have hr := h.admitted _ r hold
          have hid : c.event.id = r.rawJson.id := (hset.tables.rawJson_id hold).symm
          have hw := wanted_of_id (hwanted _ he) hr
            (verify_of_admission (admission_of_archives harch)) (verify_of_admission hr) hid
          exact ⟨r, rfl, (hdistinct _ he _ (h.only _ r hold hw) hid).symm⟩

/-- **RUN**: after any attempts, everything committed is in place. -/
theorem archiveOf_attemptAll (attempts : List Attempt) {done : Event → Prop} {db : Db F}
    (hset : Settled X db) (h : ArchiveOf X P S done db)
    (honly : ∀ a ∈ attempts, a.call.event ∈ S ∨ ¬ Wanted X P a.call.event) :
    ArchiveOf X P S
      (fun e => done e ∨ ∃ a ∈ attempts, a.call.event = e ∧ a.committed = true)
      (attemptAll X P attempts db) := by
  induction attempts generalizing done db with
  | nil =>
      refine ⟨h.admitted, h.only, ?_⟩
      rintro e he (hdone | ⟨a, ha, -⟩)
      · exact h.present e he hdone
      · cases ha
  | cons a rest ih =>
      have hrest : ∀ b ∈ rest, b.call.event ∈ S ∨ ¬ Wanted X P b.call.event :=
        fun b hb => honly b (List.mem_cons_of_mem a hb)
      have hstep : ArchiveOf X P S
          (fun e => done e ∨ a.call.event = e ∧ a.committed = true) (attempt X P a db) := by
        rw [attempt]
        cases hcommit : a.committed with
        | false =>
            refine ⟨h.admitted, h.only, ?_⟩
            rintro e he (hdone | ⟨-, hfalse⟩)
            · exact h.present e he hdone
            · cases hfalse
        | true =>
            have hgo := archiveOf_ingest hdistinct hwanted hset h
              (honly a List.mem_cons_self)
            refine ⟨hgo.admitted, hgo.only, ?_⟩
            rintro e he (hdone | ⟨heq, -⟩)
            · exact hgo.present e he (Or.inl hdone)
            · exact hgo.present e he (Or.inr heq.symm)
      have hrun := ih (attempt_settled a hset) hstep hrest
      refine ⟨hrun.admitted, hrun.only, ?_⟩
      rintro e he (hdone | ⟨b, hb, heq, hcommit⟩)
      · exact hrun.present e he (Or.inl (Or.inl hdone))
      · rcases List.mem_cons.mp hb with rfl | hb
        · exact hrun.present e he (Or.inl (Or.inr ⟨heq, hcommit⟩))
        · exact hrun.present e he (Or.inr ⟨b, hb, heq, hcommit⟩)

end Run

/-! ## From the archive to the tables -/

/-- Only a wanted event reads as a row of the three families. -/
theorem wanted_of_readOrder {e : Event} {row : OrderVersionRow F}
    (hadm : admission X P e = none) (h : readOrder X e = some row) : Wanted X P e := by
  obtain ⟨v, hp, -⟩ := readOrder_eq_some.mp h
  exact ⟨hadm, ⟨_, hp⟩, Or.inl (parseOrder_origin (parse_order hp)).1⟩

theorem wanted_of_readDispute {e : Event} {row : DisputeVersionRow}
    (hadm : admission X P e = none) (h : readDispute X e = some row) : Wanted X P e := by
  obtain ⟨v, hp, -⟩ := readDispute_eq_some.mp h
  exact ⟨hadm, ⟨_, hp⟩, Or.inr (Or.inl (parseDispute_origin (parse_dispute hp)).1)⟩

theorem wanted_of_readFee {e : Event} {row : FeeRow}
    (hadm : admission X P e = none) (h : readFee X e = some row) : Wanted X P e := by
  obtain ⟨v, hp, -⟩ := readFee_eq_some.mp h
  exact ⟨hadm, ⟨_, hp⟩, Or.inr (Or.inr (parseDevFee_origin (parse_devFee hp)).1)⟩

section Tables

variable {S : Finset Event} {db : Db F}

/-- A view of the archive of a set holds the rows of the set. -/
theorem view_iff {V : Type} {read : Event → Option V} {view : Table String V}
    (harch : ArchiveOf X P S (fun _ => True) db) (hset : Settled X db)
    (htracks : Tracks (fun r => read r.rawJson) db.events view fun _ => False)
    (hread : ∀ e row, admission X P e = none → read e = some row → Wanted X P e)
    (k : String) (row : V) :
    view[k]? = some row ↔ ∃ e ∈ S, e.id = k ∧ read e = some row := by
  constructor
  · intro hk
    obtain ⟨r, hr, hrow⟩ := htracks.sound k row hk
    obtain ⟨hkey, hnew⟩ := hset.tables.keyed k r hr
    refine ⟨r.rawJson, harch.only k r hr (hread _ row (harch.admitted k r hr) hrow), ?_, hrow⟩
    rw [← hkey, hnew]
    rfl
  · rintro ⟨e, he, rfl, hrow⟩
    obtain ⟨r, hr, rfl⟩ := harch.present e he trivial
    exact htracks.complete _ r row hr hrow not_false

theorem groupOf_eq {V : Type} {read : Event → Option V} {view : Table String V}
    {group : V → String} {g : String}
    (hview : ∀ (k : String) row,
      view[k]? = some row ↔ ∃ e ∈ S, e.id = k ∧ read e = some row) :
    groupOf view group g = {v | (∃ e ∈ S, read e = some v) ∧ group v = g} := by
  refine Set.ext (fun v => ?_)
  constructor
  · rintro ⟨⟨k, hk⟩, hg⟩
    obtain ⟨e, he, -, hrow⟩ := (hview k v).mp hk
    exact ⟨⟨e, he, hrow⟩, hg⟩
  · rintro ⟨⟨e, he, hrow⟩, hg⟩
    exact ⟨⟨e.id, (hview e.id v).mpr ⟨e, he, rfl, hrow⟩⟩, hg⟩

theorem ordersOf_settled (harch : ArchiveOf X P S (fun _ => True) db)
    (hset : Settled X db) : OrdersOf X S db.orders := by
  have hview := view_iff harch hset hset.tables.orderVersions
    (fun _ _ => wanted_of_readOrder)
  intro orderId
  have hrow : db.orders[orderId]? = Orders.projected db.orderVersions orderId :=
    Current.getElem?_eq hset.orders orderId
  have hgroup : groupOf db.orderVersions OrderVersionRow.orderId orderId
      = orderVersionsOf X S orderId := groupOf_eq hview
  rw [hrow]
  cases hp : Orders.projected db.orderVersions orderId with
  | some row => exact hgroup ▸ orderRowOf_projected hp
  | none =>
      refine Set.eq_empty_iff_forall_notMem.mpr (fun v hv => ?_)
      rw [← hgroup] at hv
      obtain ⟨⟨k, hk⟩, hv⟩ := hv
      have := orders.project_eq_none.mp hp k v hk
      exact absurd hv (ne_of_beq_false this)

theorem disputesOf_settled (harch : ArchiveOf X P S (fun _ => True) db)
    (hset : Settled X db) : DisputesOf X S db.disputes := by
  have hview := view_iff harch hset hset.tables.disputeVersions
    (fun _ _ => wanted_of_readDispute)
  intro disputeId
  have hrow : db.disputes[disputeId]? = Disputes.projected db.disputeVersions disputeId :=
    Current.getElem?_eq hset.disputes disputeId
  have hgroup : groupOf db.disputeVersions DisputeVersionRow.disputeId disputeId
      = disputeVersionsOf X S disputeId := groupOf_eq hview
  rw [hrow]
  cases hp : Disputes.projected db.disputeVersions disputeId with
  | some row => exact hgroup ▸ disputeRowOf_projected hp
  | none =>
      refine Set.eq_empty_iff_forall_notMem.mpr (fun v hv => ?_)
      rw [← hgroup] at hv
      obtain ⟨⟨k, hk⟩, hv⟩ := hv
      have := disputes.project_eq_none.mp hp k v hk
      exact absurd hv (ne_of_beq_false this)

theorem feesOf_settled (harch : ArchiveOf X P S (fun _ => True) db)
    (hset : Settled X db) : FeesOf X S db.devFees := by
  have hview := view_iff harch hset hset.tables.devFees (fun _ _ => wanted_of_readFee)
  have hsound : ∀ (k : String) row, db.devFees[k]? = some row →
      ∃ e ∈ S, e.id = k ∧ readFee X e = some { row with isDuplicate := false } := by
    intro k row hk
    refine (hview k _).mp ?_
    rw [unflagged, Std.ExtTreeMap.getElem?_map, hk]
    rfl
  have hkey : ∀ (k : String) row, db.devFees[k]? = some row → row.eventId = k := by
    intro k row hk
    obtain ⟨e, -, rfl, hfee⟩ := hsound k row hk
    exact (readFee_origin hfee).1
  refine ⟨hsound, ?_, ?_⟩
  · intro e he fee hfee
    have hk := (hview e.id fee).mpr ⟨e, he, rfl, hfee⟩
    rw [unflagged, Std.ExtTreeMap.getElem?_map, Option.map_eq_some_iff] at hk
    obtain ⟨row, hrow, rfl⟩ := hk
    exact ⟨row.isDuplicate, hrow⟩
  · intro a fee ha
    cases hf : first (ascAsc FeeRow.createdAt FeeRow.eventId) db.devFees
        fun row => row.orderId == fee.orderId with
    | none =>
        have := (first_eq_none_iff _).mp hf a fee ha
        rw [beq_self_eq_true] at this
        cases this
    | some row =>
        obtain ⟨⟨k, hk⟩, ho⟩ := first_mem hf
        have horder : row.orderId = fee.orderId := eq_of_beq ho
        have hcanonical : DevFees.canonical db.devFees fee.orderId = some row.eventId := by
          rw [DevFees.canonical, hf]
          rfl
        refine ⟨k, row, hk, horder, ?_, ?_⟩
        · rw [hset.tables.flags k row hk, horder, hcanonical, bne_self_eq_false]
        · intro b other hb hother hne
          have hids : other.eventId ≠ row.eventId := by
            rw [hkey b other hb, hkey k row hk]
            exact hne
          refine ⟨?_, ?_⟩
          · rw [hset.tables.flags b other hb, hother, hcanonical]
            exact bne_iff_ne.mpr (fun h => hids (Option.some.inj h))
          · have hle := first_le hf hb (beq_iff_eq.mpr hother)
            rw [ascAsc_le_iff] at hle
            rcases hle with hlt | ⟨heq, hle⟩
            · exact Or.inl hlt
            · exact Or.inr ⟨heq, lt_of_le_of_ne hle (Ne.symm hids)⟩

end Tables

/-! ## The result -/

theorem archiveOf_run {S : Finset Event} {attempts : List Attempt}
    (hdistinct : ∀ e ∈ S, ∀ e' ∈ S, e.id = e'.id → e = e')
    (hwanted : ∀ e ∈ S, Wanted X P e) (h : Delivers X P S attempts) :
    ArchiveOf X P S (fun _ => True) (attemptAll X P attempts Db.empty) := by
  have hempty : ArchiveOf X P S (fun _ => False) (Db.empty : Db F) :=
    ⟨fun _ _ hk => (nomatch hk), fun _ _ hk => (nomatch hk), fun _ _ hf => hf.elim⟩
  have hrun := archiveOf_attemptAll hdistinct hwanted attempts settled_empty hempty h.only
  exact ⟨hrun.admitted, hrun.only, fun e he _ => hrun.present e he (Or.inr (h.all e he))⟩

/-- **ARRIVAL ORDER DOES NOT MATTER.**  Whatever the order, the relays, the
    repeats and the rolled back attempts, the three tables are those the
    specification reads off the set; two deliveries of one set agree. -/
theorem projections_of_delivery {S : Finset Event}
    (hdistinct : ∀ e ∈ S, ∀ e' ∈ S, e.id = e'.id → e = e')
    (hwanted : ∀ e ∈ S, Wanted X P e) {attempts : List Attempt}
    (h : Delivers X P S attempts) :
    OrdersOf X S (attemptAll X P attempts Db.empty).orders ∧
    DisputesOf X S (attemptAll X P attempts Db.empty).disputes ∧
    FeesOf X S (attemptAll X P attempts Db.empty).devFees ∧
    ∀ attempts', Delivers X P S attempts' →
      (attemptAll X P attempts' Db.empty).orders
          = (attemptAll X P attempts Db.empty).orders ∧
      (attemptAll X P attempts' Db.empty).disputes
          = (attemptAll X P attempts Db.empty).disputes ∧
      (attemptAll X P attempts' Db.empty).devFees
          = (attemptAll X P attempts Db.empty).devFees := by
  have harch := archiveOf_run hdistinct hwanted h
  have hset : Settled X (attemptAll X P attempts Db.empty) :=
    attemptAll_settled attempts settled_empty
  refine ⟨ordersOf_settled harch hset, disputesOf_settled harch hset,
    feesOf_settled harch hset, ?_⟩
  intro attempts' h'
  have harch' := archiveOf_run hdistinct hwanted h'
  have hset' : Settled X (attemptAll X P attempts' Db.empty) :=
    attemptAll_settled attempts' settled_empty
  -- The views agree row by row, hence the projections and the flags do.
  have hov : (attemptAll X P attempts' Db.empty).orderVersions
      = (attemptAll X P attempts Db.empty).orderVersions :=
    ext_of_iff fun k row =>
      (view_iff harch' hset' hset'.tables.orderVersions
        (fun _ _ => wanted_of_readOrder) k row).trans
      (view_iff harch hset hset.tables.orderVersions
        (fun _ _ => wanted_of_readOrder) k row).symm
  have hdv : (attemptAll X P attempts' Db.empty).disputeVersions
      = (attemptAll X P attempts Db.empty).disputeVersions :=
    ext_of_iff fun k row =>
      (view_iff harch' hset' hset'.tables.disputeVersions
        (fun _ _ => wanted_of_readDispute) k row).trans
      (view_iff harch hset hset.tables.disputeVersions
        (fun _ _ => wanted_of_readDispute) k row).symm
  have hdf : unflagged (attemptAll X P attempts' Db.empty).devFees
      = unflagged (attemptAll X P attempts Db.empty).devFees :=
    ext_of_iff fun k row =>
      (view_iff harch' hset' hset'.tables.devFees
        (fun _ _ => wanted_of_readFee) k row).trans
      (view_iff harch hset hset.tables.devFees
        (fun _ _ => wanted_of_readFee) k row).symm
  exact ⟨Current.unique hset'.orders (hov ▸ hset.orders),
    Current.unique hset'.disputes (hdv ▸ hset.disputes),
    flagged_unique hset'.tables.flags hset.tables.flags hdf⟩

/-! ## The result at work -/

/-- A well-formed order event. -/
def orderEvent (id pubkey : String) (createdAt : UInt64) (status : String) : Event where
  id := id
  pubkey := pubkey
  createdAt := createdAt
  kind := orderKind
  tags := [["d", "9b2f3c1e-5d0a-4e7b-8c11-2f6a90d1c001"], ["k", "sell"], ["s", status],
    ["f", "USD"], ["amt", "100000"], ["fa", "60"], ["pm", "cash"], ["premium", "0"],
    ["network", "mainnet"], ["expires_at", "1785700000"], ["y", "mostro"], ["z", "order"]]
  content := ""
  sig := ""

/-- A well-formed dev-fee event for the same order. -/
def devFeeEvent (id pubkey : String) (createdAt : UInt64) : Event where
  id := id
  pubkey := pubkey
  createdAt := createdAt
  kind := devFeeKind
  tags := [["order-id", "9b2f3c1e-5d0a-4e7b-8c11-2f6a90d1c001"], ["amount", "600"],
    ["hash", "5e"], ["y", "mostro"], ["z", "dev-fee-payment"]]
  content := ""
  sig := ""

/-- The publisher of the sample events. -/
def alice : String := "82fa8cb978b43c79b2156585bac2c011176a21d2aead6d9f7c575c005be88390"

def pendingOrder : Event :=
  orderEvent "1000000000000000000000000000000000000000000000000000000000000001" alice
    1785600000 "pending"

def completedOrder : Event :=
  orderEvent "1000000000000000000000000000000000000000000000000000000000000002" alice
    1785600900 "success"

def paidFee : Event :=
  devFeeEvent "1000000000000000000000000000000000000000000000000000000000000003" alice
    1785600905

/-- Everyone is admitted, on mainnet. -/
def openPolicy : Policy := ⟨[], true, [.mainnet]⟩

/-- A run of the three events: backwards, one attempt rolled back, one repeat
    from a second relay. -/
def backwards : List Attempt :=
  [⟨⟨paidFee, "wss://a", 1785601000⟩, true⟩,
    ⟨⟨completedOrder, "wss://a", 1785601001⟩, false⟩,
    ⟨⟨completedOrder, "wss://a", 1785601002⟩, true⟩,
    ⟨⟨paidFee, "wss://b", 1785601003⟩, true⟩,
    ⟨⟨pendingOrder, "wss://b", 1785601004⟩, true⟩]

def trade : Externals Int :=
  Externals.over [pendingOrder, completedOrder, paidFee] (by decide) []

theorem projections_of_backwards :
    OrdersOf trade {pendingOrder, completedOrder, paidFee}
      (attemptAll trade openPolicy backwards Db.empty).orders ∧
    FeesOf trade {pendingOrder, completedOrder, paidFee}
      (attemptAll trade openPolicy backwards Db.empty).devFees := by
  have hwanted : ∀ e ∈ ({pendingOrder, completedOrder, paidFee} : Finset Event),
      Wanted trade openPolicy e := by
    intro e he
    simp only [Finset.mem_insert, Finset.mem_singleton] at he
    rcases he with rfl | rfl | rfl
    · exact ⟨by decide, ⟨_, rfl⟩, by decide⟩
    · exact ⟨by decide, ⟨_, rfl⟩, by decide⟩
    · exact ⟨by decide, ⟨_, rfl⟩, by decide⟩
  have hdelivers : Delivers trade openPolicy {pendingOrder, completedOrder, paidFee}
      backwards := by
    refine ⟨fun a ha => Or.inl ?_, by decide⟩
    simp only [backwards, List.mem_cons, List.not_mem_nil, or_false] at ha
    rcases ha with rfl | rfl | rfl | rfl | rfl
    all_goals decide
  obtain ⟨horders, -, hfees, -⟩ :=
    projections_of_delivery (by decide) hwanted hdelivers
  exact ⟨horders, hfees⟩

end Convergence
