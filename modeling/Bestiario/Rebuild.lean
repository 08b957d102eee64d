import Bestiario.Derived

/-! # Rebuild: re-derive everything that was derived

    `commands/rebuild.rs`.  The command is deliberately not one transaction:
    it is a list of statements, and a sync may write between any two of them.
    `Stmt` is one of them, `exec` what it does and which statements its
    answer schedules, `Interleaved` a rebuild with calls of `ingest` slipped in
    anywhere.

    `Owing` is the invariant of that machine: what the tables lack is exactly
    what the statements still to run will write.  It is preserved by every
    statement and by every call, so the run that ends with nothing to do owes
    nothing, whatever was slipped in.  `rebuild` itself is the run with no
    calls (`interleaved_rebuild`), and its results are read off there. -/

namespace Rebuild

open Keyed Wire Parse Repo Pipeline Derived

variable {F : Type} {X : Externals F} {P : Policy}

/-! ## The command -/

/-- What a rebuild did. -/
structure Rebuilt where
  events : Nat
  unreadable : Nat
  orders : Nat
  disputes : Nat
  deriving DecidableEq

/-- One archived event replayed, and counted. -/
def replayOne (X : Externals F) (acc : Rebuilt × Db F) (record : EventRecord) :
    Rebuilt × Db F :=
  match replay X record.rawJson acc.2 with
  | (.rejected _, db) => ({ acc.1 with unreadable := acc.1.unreadable + 1 }, db)
  | (_, db) => ({ acc.1 with events := acc.1.events + 1 }, db)

/-- The version tables, emptied under `--from-raw` only. -/
def clearRaw (fromRaw : Bool) (db : Db F) : Db F :=
  if fromRaw then
    Rates.clear (InstanceInfos.clear (DevFees.clear
      (Disputes.clearVersions (Orders.clearVersions db))))
  else db

/-- The projections and the bestiary, always emptied. -/
def clearProjections (db : Db F) : Db F :=
  Instances.clear (Disputes.clearProjection (Orders.clearProjection db))

/-- `rebuild`. -/
def rebuild (X : Externals F) (fromRaw : Bool) (db : Db F) : Rebuilt × Db F :=
  let db := clearProjections (clearRaw fromRaw db)
  let (rebuilt, db) := (Events.all db).foldl (replayOne X) (⟨0, 0, 0, 0⟩, db)
  let orderIds := Orders.ids db
  let db := orderIds.foldl (fun db id => Orders.refreshProjection id db) db
  let disputeIds := Disputes.ids db
  let db := disputeIds.foldl (fun db id => Disputes.refreshProjection id db) db
  let db := (DevFees.orderIds db).foldl (fun db id => DevFees.refreshDuplicates id db) db
  ({ rebuilt with orders := orderIds.length, disputes := disputeIds.length }, db)

/-! ## The command as statements -/

/-- One statement (or one transaction) of a rebuild. -/
inductive Stmt where
  | clearOrderVersions
  | clearDisputeVersions
  | clearDevFees
  | clearInstanceInfo
  | clearRates
  | clearOrders
  | clearDisputes
  | clearInstanceNames
  | clearInstances
  | readArchive
  | replay (event : Event)
  | readOrderIds
  | refreshOrder (orderId : String)
  | readDisputeIds
  | refreshDispute (disputeId : String)
  | readFeeOrderIds
  | refreshDuplicates (orderId : String)
  deriving DecidableEq

/-- What a statement does, and the statements its answer schedules. -/
def exec (X : Externals F) : Stmt → Db F → Db F × List Stmt
  | .clearOrderVersions, db => (Orders.clearVersions db, [])
  | .clearDisputeVersions, db => (Disputes.clearVersions db, [])
  | .clearDevFees, db => (DevFees.clear db, [])
  | .clearInstanceInfo, db => (InstanceInfos.clear db, [])
  | .clearRates, db => (Rates.clear db, [])
  | .clearOrders, db => (Orders.clearProjection db, [])
  | .clearDisputes, db => (Disputes.clearProjection db, [])
  | .clearInstanceNames, db => ({ db with instanceNames := ∅ }, [])
  | .clearInstances, db => ({ db with instances := ∅ }, [])
  | .readArchive, db => (db, (Events.all db).map fun r => .replay r.rawJson)
  | .replay e, db => ((Pipeline.replay X e db).2, [])
  | .readOrderIds, db => (db, (Orders.ids db).map .refreshOrder)
  | .refreshOrder id, db => (Orders.refreshProjection id db, [])
  | .readDisputeIds, db => (db, (Disputes.ids db).map .refreshDispute)
  | .refreshDispute id, db => (Disputes.refreshProjection id db, [])
  | .readFeeOrderIds, db => (db, (DevFees.orderIds db).map .refreshDuplicates)
  | .refreshDuplicates id, db => (DevFees.refreshDuplicates id db, [])

/-- What follows the clears. -/
def derivation : List Stmt :=
  [.clearOrders, .clearDisputes, .clearInstanceNames, .clearInstances, .readArchive,
    .readOrderIds, .readDisputeIds, .readFeeOrderIds]

/-- `rebuild(from_raw)` before it has started. -/
def program (fromRaw : Bool) : List Stmt :=
  (if fromRaw then
    [.clearOrderVersions, .clearDisputeVersions, .clearDevFees, .clearInstanceInfo,
      .clearRates]
  else []) ++ derivation

/-- `Interleaved ok db todo calls out`: the statements `todo` and the `calls`,
    each in its own order and one at a time, lead from `db` to `out`; every
    call finds a database where `ok` holds of its event. -/
inductive Interleaved (X : Externals F) (P : Policy) (ok : Event → Db F → Prop) :
    Db F → List Stmt → List Call → Db F → Prop where
  | done (db) : Interleaved X P ok db [] [] db
  | stmt {db stmt todo calls out}
      (h : Interleaved X P ok (exec X stmt db).1 ((exec X stmt db).2 ++ todo) calls out) :
      Interleaved X P ok db (stmt :: todo) calls out
  | call {db c todo calls out} (hok : ok c.event db)
      (h : Interleaved X P ok (ingest X P c db).2 todo calls out) :
      Interleaved X P ok db todo (c :: calls) out

/-! ## What is still owed -/

/-- Archived events whose rows the statements to come will write. -/
def owedRows (todo : List Stmt) (k : String) : Prop :=
  .readArchive ∈ todo ∨ ∃ e, Stmt.replay e ∈ todo ∧ e.id = k

/-- Orders the statements to come will refresh. -/
def owedOrders (todo : List Stmt) (orderId : String) : Prop :=
  .readOrderIds ∈ todo ∨ .refreshOrder orderId ∈ todo

/-- Disputes the statements to come will refresh. -/
def owedDisputes (todo : List Stmt) (disputeId : String) : Prop :=
  .readDisputeIds ∈ todo ∨ .refreshDispute disputeId ∈ todo

/-- What has to follow a statement: nothing is emptied without the pass that
    refills it. -/
def Needs : Stmt → List Stmt → Prop
  | .clearOrderVersions, todo => .readArchive ∈ todo ∧ .clearOrders ∈ todo
  | .clearDisputeVersions, todo => .readArchive ∈ todo ∧ .clearDisputes ∈ todo
  | .clearDevFees, todo => .readArchive ∈ todo
  | .clearInstanceInfo, todo => .readArchive ∈ todo
  | .clearRates, todo => .readArchive ∈ todo
  | .clearOrders, todo => .readOrderIds ∈ todo
  | .clearDisputes, todo => .readDisputeIds ∈ todo
  | _, _ => True

/-- Every statement still to run is followed by what it needs. -/
def Ordered : List Stmt → Prop
  | [] => True
  | stmt :: todo => Needs stmt todo ∧ Ordered todo

/-- The tables lack what the statements to come will write, and nothing else. -/
structure Owing (X : Externals F) (db : Db F) (todo : List Stmt) : Prop where
  tables : Consistent X db (owedRows todo)
  orders : .clearOrders ∈ todo ∨ OrdersCurrent db (owedOrders todo)
  disputes : .clearDisputes ∈ todo ∨ DisputesCurrent db (owedDisputes todo)
  archived : ∀ e, Stmt.replay e ∈ todo → ∃ r, db.events[e.id]? = some r ∧ r.rawJson = e
  ordered : Ordered todo

theorem ordered_program (fromRaw : Bool) : Ordered (program fromRaw) := by
  cases fromRaw with
  | true => simp [program, derivation, Ordered, Needs]
  | false => simp [program, derivation, Ordered, Needs]

/-- A rebuild may start from any settled database. -/
theorem owing_program {db : Db F} (fromRaw : Bool) (h : Settled X db) :
    Owing X db (program fromRaw) where
  tables := h.tables.mono (fun _ hf => hf.elim)
  orders := Or.inr (h.orders.mono (fun _ hf => hf.elim))
  disputes := Or.inr (h.disputes.mono (fun _ hf => hf.elim))
  archived := by
    intro e he
    exfalso
    revert he
    cases fromRaw with
    | true => simp [program, derivation]
    | false => simp [program, derivation]
  ordered := ordered_program fromRaw

/-- A rebuild with nothing left to run has settled everything. -/
theorem settled_of_owing_nil {db : Db F} (h : Owing X db []) : Settled X db where
  tables := h.tables.mono (by rintro k (hmem | ⟨e, hmem, -⟩) <;> exact nomatch hmem)
  orders := by
    rcases h.orders with hmem | hcur
    · exact nomatch hmem
    · exact hcur.mono (by rintro k (hmem | hmem) <;> exact nomatch hmem)
  disputes := by
    rcases h.disputes with hmem | hcur
    · exact nomatch hmem
    · exact hcur.mono (by rintro k (hmem | hmem) <;> exact nomatch hmem)

/-! ## One statement -/

/-- The debt of `orders` through a statement that touches neither it nor its
    versions. -/
theorem orders_frame {db db' : Db F} {todo todo' : List Stmt}
    (h : .clearOrders ∈ todo ∨ OrdersCurrent db (owedOrders todo))
    (hclear : .clearOrders ∈ todo → .clearOrders ∈ todo')
    (howed : ∀ k, owedOrders todo k → owedOrders todo' k)
    (hversions : db'.orderVersions = db.orderVersions) (horders : db'.orders = db.orders) :
    .clearOrders ∈ todo' ∨ OrdersCurrent db' (owedOrders todo') := by
  refine h.imp hclear (fun hcur => ?_)
  rw [OrdersCurrent, hversions, horders]
  exact hcur.mono howed

theorem owing_exec_orders {db : Db F} {stmt : Stmt} {todo : List Stmt}
    (h : Owing X db (stmt :: todo)) :
    .clearOrders ∈ (exec X stmt db).2 ++ todo ∨
      OrdersCurrent (exec X stmt db).1 (owedOrders ((exec X stmt db).2 ++ todo)) := by
  have horders := h.orders
  cases stmt with
  | clearOrderVersions => exact Or.inl h.ordered.1.2
  | clearOrders => exact Or.inr ((Current.empty _).mono (fun _ _ => Or.inl h.ordered.1))
  | replay e =>
      have hkept : .clearOrders ∈ todo ∨ OrdersCurrent db (owedOrders todo) :=
        orders_frame horders (by simp) (by simp [owedOrders]) rfl rfl
      refine hkept.imp id (fun hcur => ?_)
      rw [exec, Pipeline.replay]
      cases hp : parse X e with
      | error rejection => exact hcur
      | ok p => exact (persisted hp db).orders hcur
  | readOrderIds =>
      refine horders.imp (by simp [exec]) (fun hcur k => ?_)
      rcases hcur k with heq | ⟨hnone, -⟩
      · exact Or.inl heq
      · by_cases hk : k ∈ Orders.ids db
        · exact Or.inr ⟨hnone, Or.inr (List.mem_append_left _ (List.mem_map_of_mem hk))⟩
        · -- No version names this order: having no row is what it projects to.
          refine Or.inl (hnone.trans (orders.project_eq_none.mpr (fun a v ha => ?_)).symm)
          exact beq_false_of_ne (fun hv => hk (mem_distinct.mpr ⟨a, v, ha, hv⟩))
  | refreshOrder id =>
      refine horders.imp (by simp [exec]) (fun hcur => ?_)
      rw [exec, refreshOrder_eq]
      refine (orders.refresh_current id hcur).mono ?_
      rintro k ⟨hk, hne⟩
      simpa [owedOrders, hne] using hk
  | refreshDispute id =>
      rw [exec, refreshDispute_eq]
      exact orders_frame horders (by simp) (by simp [owedOrders]) rfl rfl
  | _ => exact orders_frame horders (by simp [exec]) (by simp [owedOrders, exec]) rfl rfl

/-- The debt of `disputes` through a statement that touches neither it nor its
    versions. -/
theorem disputes_frame {db db' : Db F} {todo todo' : List Stmt}
    (h : .clearDisputes ∈ todo ∨ DisputesCurrent db (owedDisputes todo))
    (hclear : .clearDisputes ∈ todo → .clearDisputes ∈ todo')
    (howed : ∀ k, owedDisputes todo k → owedDisputes todo' k)
    (hversions : db'.disputeVersions = db.disputeVersions)
    (hdisputes : db'.disputes = db.disputes) :
    .clearDisputes ∈ todo' ∨ DisputesCurrent db' (owedDisputes todo') := by
  refine h.imp hclear (fun hcur => ?_)
  rw [DisputesCurrent, hversions, hdisputes]
  exact hcur.mono howed

theorem owing_exec_disputes {db : Db F} {stmt : Stmt} {todo : List Stmt}
    (h : Owing X db (stmt :: todo)) :
    .clearDisputes ∈ (exec X stmt db).2 ++ todo ∨
      DisputesCurrent (exec X stmt db).1 (owedDisputes ((exec X stmt db).2 ++ todo)) := by
  have hdisputes := h.disputes
  cases stmt with
  | clearDisputeVersions => exact Or.inl h.ordered.1.2
  | clearDisputes => exact Or.inr ((Current.empty _).mono (fun _ _ => Or.inl h.ordered.1))
  | replay e =>
      have hkept : .clearDisputes ∈ todo ∨ DisputesCurrent db (owedDisputes todo) :=
        disputes_frame hdisputes (by simp) (by simp [owedDisputes]) rfl rfl
      refine hkept.imp id (fun hcur => ?_)
      rw [exec, Pipeline.replay]
      cases hp : parse X e with
      | error rejection => exact hcur
      | ok p => exact (persisted hp db).disputes hcur
  | readDisputeIds =>
      refine hdisputes.imp (by simp [exec]) (fun hcur k => ?_)
      rcases hcur k with heq | ⟨hnone, -⟩
      · exact Or.inl heq
      · by_cases hk : k ∈ Disputes.ids db
        · exact Or.inr ⟨hnone, Or.inr (List.mem_append_left _ (List.mem_map_of_mem hk))⟩
        · -- No version names this dispute: having no row is what it projects to.
          refine Or.inl (hnone.trans (disputes.project_eq_none.mpr (fun a v ha => ?_)).symm)
          exact beq_false_of_ne (fun hv => hk (mem_distinct.mpr ⟨a, v, ha, hv⟩))
  | refreshDispute id =>
      refine hdisputes.imp (by simp [exec]) (fun hcur => ?_)
      rw [exec, refreshDispute_eq]
      refine (disputes.refresh_current id hcur).mono ?_
      rintro k ⟨hk, hne⟩
      simpa [owedDisputes, hne] using hk
  | refreshOrder id =>
      rw [exec, refreshOrder_eq]
      exact disputes_frame hdisputes (by simp) (by simp [owedDisputes]) rfl rfl
  | _ => exact disputes_frame hdisputes (by simp [exec]) (by simp [owedDisputes, exec]) rfl rfl
/-- The debt of the views through a statement that touches none of them. -/
theorem tables_frame {db db' : Db F} {owed owed' : String → Prop}
    (h : Consistent X db owed) (howed : ∀ k, owed k → owed' k)
    (he : db'.events = db.events) (hov : db'.orderVersions = db.orderVersions)
    (hdv : db'.disputeVersions = db.disputeVersions) (hdf : db'.devFees = db.devFees)
    (hii : db'.instanceInfo = db.instanceInfo) (hra : db'.rates = db.rates) :
    Consistent X db' owed' where
  keyed := he ▸ h.keyed
  orderVersions := by
    rw [he, hov]
    exact h.orderVersions.mono howed
  disputeVersions := by
    rw [he, hdv]
    exact h.disputeVersions.mono howed
  devFees := by
    rw [he, hdf]
    exact h.devFees.mono howed
  flags := hdf ▸ h.flags
  instanceInfo := by
    rw [he, hii]
    exact h.instanceInfo.mono howed
  rates := by
    rw [he, hra]
    exact h.rates.mono howed

/-- Emptying a view is safe while the pass over the archive is to come. -/
theorem tables_clear {db : Db F} {stmt : Stmt} {todo : List Stmt}
    (h : Consistent X db (owedRows (stmt :: todo))) (hread : .readArchive ∈ todo) :
    Consistent X (Orders.clearVersions db) (owedRows todo) ∧
    Consistent X (Disputes.clearVersions db) (owedRows todo) ∧
    Consistent X (DevFees.clear db) (owedRows todo) ∧
    Consistent X (InstanceInfos.clear db) (owedRows todo) ∧
    Consistent X (Rates.clear db) (owedRows todo) := by
  have hall : ∀ k, True → owedRows todo k := fun _ _ => Or.inl hread
  have hkept : Consistent X db (owedRows todo) := h.mono (fun k _ => hall k trivial)
  refine ⟨?_, ?_, ?_, ?_, ?_⟩
  · exact { hkept with orderVersions := (Tracks.empty _ _).mono hall }
  · exact { hkept with disputeVersions := (Tracks.empty _ _).mono hall }
  · exact { hkept with
      devFees := ⟨fun _ _ hk => (nomatch hk), fun _ _ _ _ _ ho => absurd (Or.inl hread) ho⟩
      flags := fun _ _ hk => (nomatch hk) }
  · exact { hkept with instanceInfo := (Tracks.empty _ _).mono hall }
  · exact { hkept with rates := (Tracks.empty _ _).mono hall }

theorem owing_exec_tables {db : Db F} {stmt : Stmt} {todo : List Stmt}
    (h : Owing X db (stmt :: todo)) :
    Consistent X (exec X stmt db).1 (owedRows ((exec X stmt db).2 ++ todo)) := by
  have htables := h.tables
  cases stmt with
  | clearOrderVersions => exact (tables_clear htables h.ordered.1.1).1
  | clearDisputeVersions => exact (tables_clear htables h.ordered.1.1).2.1
  | clearDevFees => exact (tables_clear htables h.ordered.1).2.2.1
  | clearInstanceInfo => exact (tables_clear htables h.ordered.1).2.2.2.1
  | clearRates => exact (tables_clear htables h.ordered.1).2.2.2.2
  | readArchive =>
      -- Every archived event is in the list just read.
      have hall : ∀ (k : String) r, db.events[k]? = some r →
          owedRows ((Events.all db).map (fun r => Stmt.replay r.rawJson) ++ todo) k := by
        intro k r hk
        have hmem : r ∈ Events.all db := mem_rowsBy.mpr ⟨⟨k, hk⟩, rfl⟩
        exact Or.inr ⟨r.rawJson, List.mem_append_left _ (List.mem_map.mpr ⟨r, hmem, rfl⟩),
          htables.rawJson_id hk⟩
      exact ⟨htables.keyed, htables.orderVersions.of_all_owed hall,
        htables.disputeVersions.of_all_owed hall, htables.devFees.of_all_owed hall,
        htables.flags, htables.instanceInfo.of_all_owed hall,
        htables.rates.of_all_owed hall⟩
  | replay e =>
      obtain ⟨r, hr, hraw⟩ := h.archived e List.mem_cons_self
      have hpaid : ∀ k, owedRows (.replay e :: todo) k ∧ k ≠ e.id → owedRows todo k := by
        rintro k ⟨hmem | ⟨e', hmem, hid⟩, hne⟩
        · exact Or.inl (by simpa using hmem)
        · rcases List.mem_cons.mp hmem with heq | hmem
          · cases heq
            exact absurd hid.symm hne
          · exact Or.inr ⟨e', hmem, hid⟩
      rw [exec, Pipeline.replay]
      cases hp : parse X e with
      | error rejection => exact (htables.skip hp hr hraw).mono hpaid
      | ok p => exact (htables.persist hp hr hraw).mono hpaid
  | refreshOrder id =>
      rw [exec, refreshOrder_eq]
      exact tables_frame htables (by simp [owedRows]) rfl rfl rfl rfl rfl rfl
  | refreshDispute id =>
      rw [exec, refreshDispute_eq]
      exact tables_frame htables (by simp [owedRows]) rfl rfl rfl rfl rfl rfl
  | refreshDuplicates id =>
      rw [exec, refreshDuplicates_of_flagged htables.flags]
      exact htables.mono (by simp [owedRows])
  | _ => exact tables_frame htables (by simp [owedRows, exec]) rfl rfl rfl rfl rfl rfl

theorem replay_events (e : Event) (db : Db F) :
    (Pipeline.replay X e db).2.events = db.events := by
  rw [Pipeline.replay]
  cases hp : parse X e with
  | error rejection => rfl
  | ok p => exact (persisted hp db).events

/-- No statement of a rebuild touches the archive. -/
theorem exec_events (stmt : Stmt) (db : Db F) : (exec X stmt db).1.events = db.events := by
  cases stmt with
  | replay e => exact replay_events e db
  | refreshOrder id => rw [exec, refreshOrder_eq]
  | refreshDispute id => rw [exec, refreshDispute_eq]
  | _ => rfl

theorem owing_exec_archived {db : Db F} {stmt : Stmt} {todo : List Stmt}
    (h : Owing X db (stmt :: todo)) (e : Event)
    (he : Stmt.replay e ∈ (exec X stmt db).2 ++ todo) :
    ∃ r, (exec X stmt db).1.events[e.id]? = some r ∧ r.rawJson = e := by
  rw [exec_events]
  rcases List.mem_append.mp he with hnew | hold
  · cases stmt with
    | readArchive =>
        obtain ⟨r, hr, heq⟩ := List.mem_map.mp hnew
        cases heq
        obtain ⟨⟨k, hk⟩, -⟩ := mem_rowsBy.mp hr
        refine ⟨r, ?_, rfl⟩
        rw [h.tables.rawJson_id hk]
        exact hk
    | _ => simp [exec] at hnew
  · exact h.archived e (List.mem_cons_of_mem stmt hold)

/-- What a statement schedules needs nothing of its own. -/
theorem ordered_append {more todo : List Stmt} (hmore : ∀ s ∈ more, ∀ l, Needs s l)
    (h : Ordered todo) : Ordered (more ++ todo) := by
  induction more with
  | nil => exact h
  | cons s rest ih =>
      exact ⟨hmore s List.mem_cons_self _,
        ih (fun s' hs' => hmore s' (List.mem_cons_of_mem s hs'))⟩

theorem needs_scheduled (stmt : Stmt) (db : Db F) :
    ∀ s ∈ (exec X stmt db).2, ∀ l, Needs s l := by
  intro s hs l
  cases stmt with
  | readArchive =>
      obtain ⟨r, -, rfl⟩ := List.mem_map.mp hs
      trivial
  | readOrderIds =>
      obtain ⟨id, -, rfl⟩ := List.mem_map.mp hs
      trivial
  | readDisputeIds =>
      obtain ⟨id, -, rfl⟩ := List.mem_map.mp hs
      trivial
  | readFeeOrderIds =>
      obtain ⟨id, -, rfl⟩ := List.mem_map.mp hs
      trivial
  | _ => exact nomatch hs

/-- **STEP**: a statement pays what it was owed for. -/
theorem owing_exec {db : Db F} {stmt : Stmt} {todo : List Stmt}
    (h : Owing X db (stmt :: todo)) :
    Owing X (exec X stmt db).1 ((exec X stmt db).2 ++ todo) where
  tables := owing_exec_tables h
  orders := owing_exec_orders h
  disputes := owing_exec_disputes h
  archived := owing_exec_archived h
  ordered := ordered_append (needs_scheduled stmt db) h.ordered.2

/-- **STEP**: a call slipped in leaves the debt as it was. -/
theorem owing_ingest {db : Db F} {todo : List Stmt} (c : Call) (h : Owing X db todo) :
    Owing X (ingest X P c db).2 todo where
  tables := ingest_consistent c h.tables
  orders := h.orders.imp id (ingest_ordersCurrent c)
  disputes := h.disputes.imp id (ingest_disputesCurrent c)
  archived := by
    intro e he
    obtain ⟨r, hr, hraw⟩ := h.archived e he
    exact ⟨r, ingest_events_mono P c hr, hraw⟩
  ordered := h.ordered

/-- **RUN**: a rebuild that has finished has settled everything, whatever was
    slipped in. -/
theorem settled_interleaved {ok : Event → Db F → Prop} {db out : Db F}
    {todo : List Stmt} {calls : List Call} (h : Interleaved X P ok db todo calls out)
    (howing : Owing X db todo) : Settled X out := by
  induction h with
  | done db => exact settled_of_owing_nil howing
  | stmt _ ih => exact ih (owing_exec howing)
  | call _ _ ih => exact ih (owing_ingest _ howing)

/-! ## The command is the run with no calls -/

/-- A column no step of a loop writes keeps its value. -/
theorem foldl_frame {α β γ : Type} {f : β → α → β} (column : β → γ)
    (h : ∀ b a, column (f b a) = column b) (l : List α) (b : β) :
    column (l.foldl f b) = column b := by
  induction l generalizing b with
  | nil => rfl
  | cons a rest ih => exact (ih (f b a)).trans (h b a)

/-- A loop of the command is its statements, one after another. -/
theorem interleaved_map {α : Type} {ok : Event → Db F → Prop} {stmt : α → Stmt}
    {act : α → Db F → Db F} (hexec : ∀ a db, exec X (stmt a) db = (act a db, []))
    {todo : List Stmt} {out : Db F} (l : List α) {db : Db F}
    (h : Interleaved X P ok (l.foldl (fun db a => act a db) db) todo [] out) :
    Interleaved X P ok db (l.map stmt ++ todo) [] out := by
  induction l generalizing db with
  | nil => exact h
  | cons a rest ih =>
      refine .stmt ?_
      rw [hexec a db]
      exact ih h

theorem replayOne_snd (acc : Rebuilt × Db F) (record : EventRecord) :
    (replayOne X acc record).2 = (Pipeline.replay X record.rawJson acc.2).2 := by
  rw [replayOne, Pipeline.replay]
  cases parse X record.rawJson with
  | error rejection => rfl
  | ok p => rfl

theorem replayAll_snd (records : List EventRecord) (acc : Rebuilt × Db F) :
    (records.foldl (replayOne X) acc).2
      = records.foldl (fun db r => (Pipeline.replay X r.rawJson db).2) acc.2 := by
  induction records generalizing acc with
  | nil => rfl
  | cons r rest ih =>
      rw [List.foldl_cons, List.foldl_cons, ih, replayOne_snd]

/-- The database once the archive has been replayed. -/
def replayed (X : Externals F) (fromRaw : Bool) (db : Db F) : Db F :=
  let db := clearProjections (clearRaw fromRaw db)
  (Events.all db).foldl (fun db r => (Pipeline.replay X r.rawJson db).2) db

/-- The sweep that follows. -/
def swept (db : Db F) : Db F :=
  let db := (Orders.ids db).foldl (fun db id => Orders.refreshProjection id db) db
  let db := (Disputes.ids db).foldl (fun db id => Disputes.refreshProjection id db) db
  (DevFees.orderIds db).foldl (fun db id => DevFees.refreshDuplicates id db) db

theorem rebuild_snd (fromRaw : Bool) (db : Db F) :
    (rebuild X fromRaw db).2 = swept (replayed X fromRaw db) := by
  simp only [rebuild, replayed, swept, replayAll_snd]

theorem interleaved_fees (ok : Event → Db F → Prop) (db : Db F) :
    Interleaved X P ok db [.readFeeOrderIds] []
      ((DevFees.orderIds db).foldl (fun db id => DevFees.refreshDuplicates id db) db) := by
  have hfee : ∀ id (db : Db F),
      exec X (.refreshDuplicates id) db = (DevFees.refreshDuplicates id db, []) :=
    fun _ _ => rfl
  refine .stmt ?_
  rw [exec]
  exact interleaved_map hfee _ (.done _)

theorem interleaved_swept (ok : Event → Db F → Prop) (db : Db F) :
    Interleaved X P ok db [.readOrderIds, .readDisputeIds, .readFeeOrderIds] []
      (swept db) := by
  have horder : ∀ id (db : Db F),
      exec X (.refreshOrder id) db = (Orders.refreshProjection id db, []) :=
    fun _ _ => rfl
  have hdispute : ∀ id (db : Db F),
      exec X (.refreshDispute id) db = (Disputes.refreshProjection id db, []) :=
    fun _ _ => rfl
  rw [swept]
  refine .stmt ?_
  rw [exec]
  refine interleaved_map horder _ ?_
  generalize (Orders.ids db).foldl (fun db id => Orders.refreshProjection id db) db = db
  refine .stmt ?_
  rw [exec]
  refine interleaved_map hdispute _ ?_
  exact interleaved_fees ok _

/-- From the projections on, the command is one run whatever it starts from. -/
theorem interleaved_derivation (ok : Event → Db F → Prop) (db : Db F) :
    Interleaved X P ok db derivation [] (swept (replayed X false db)) := by
  have hreplay : ∀ (r : EventRecord) (db : Db F),
      exec X (.replay r.rawJson) db = ((Pipeline.replay X r.rawJson db).2, []) :=
    fun _ _ => rfl
  refine .stmt (.stmt (.stmt (.stmt (.stmt ?_))))
  rw [exec]
  exact interleaved_map hreplay _ (interleaved_swept ok _)

theorem interleaved_rebuild (ok : Event → Db F → Prop) (fromRaw : Bool) (db : Db F) :
    Interleaved X P ok db (program fromRaw) [] (rebuild X fromRaw db).2 := by
  have hderive : Interleaved X P ok (clearRaw fromRaw db) derivation []
      (swept (replayed X fromRaw db)) := interleaved_derivation ok (clearRaw fromRaw db)
  rw [rebuild_snd]
  cases fromRaw with
  | true => exact .stmt (.stmt (.stmt (.stmt (.stmt hderive))))
  | false => exact hderive

theorem interleaved_events {ok : Event → Db F → Prop} {db out : Db F} {todo : List Stmt}
    (h : Interleaved X P ok db todo [] out) : out.events = db.events := by
  generalize hcalls : ([] : List Call) = calls at h
  induction h with
  | done db => rfl
  | stmt _ ih => exact (ih hcalls).trans (exec_events _ _)
  | call _ _ _ => exact nomatch hcalls

theorem rebuild_events (fromRaw : Bool) (db : Db F) :
    (rebuild X fromRaw db).2.events = db.events :=
  interleaved_events (interleaved_rebuild (P := ⟨[], false, []⟩) (fun _ _ => True) fromRaw db)

theorem rebuild_settled {db : Db F} (fromRaw : Bool) (h : Settled X db) :
    Settled X (rebuild X fromRaw db).2 :=
  settled_interleaved
    (interleaved_rebuild (P := ⟨[], false, []⟩) (fun _ _ => True) fromRaw db)
    (owing_program fromRaw h)

/-- A rebuild changes none of the seven tables. -/
theorem rebuild_sameTables {db : Db F} (fromRaw : Bool) (h : Settled X db) :
    SameTables (rebuild X fromRaw db).2 db :=
  (rebuild_settled fromRaw h).unique h (rebuild_events fromRaw db)

/-! ## Twice is once -/

/-- What a sweep leaves alone: everything but the three tables it refreshes. -/
theorem swept_frame {γ : Type} (column : Db F → γ)
    (horders : ∀ (db : Db F) orders, column { db with orders } = column db)
    (hdisputes : ∀ (db : Db F) disputes, column { db with disputes } = column db)
    (hfees : ∀ (db : Db F) devFees, column { db with devFees } = column db) (db : Db F) :
    column (swept db) = column db := by
  have ho : ∀ (db : Db F) id, column (Orders.refreshProjection id db) = column db := by
    intro db id
    rw [refreshOrder_eq, horders]
  have hd : ∀ (db : Db F) id, column (Disputes.refreshProjection id db) = column db := by
    intro db id
    rw [refreshDispute_eq, hdisputes]
  have hf : ∀ (db : Db F) id, column (DevFees.refreshDuplicates id db) = column db := by
    intro db id
    rw [refreshDuplicates_eq, hfees]
  rw [swept, foldl_frame column hf, foldl_frame column hd, foldl_frame column ho]

/-- The tally the replay keeps: one parse per archived event. -/
def tally (X : Externals F) (rebuilt : Rebuilt) (record : EventRecord) : Rebuilt :=
  match parse X record.rawJson with
  | .error _ => { rebuilt with unreadable := rebuilt.unreadable + 1 }
  | .ok _ => { rebuilt with events := rebuilt.events + 1 }

theorem replayAll_fst (records : List EventRecord) (acc : Rebuilt × Db F) :
    (records.foldl (replayOne X) acc).1 = records.foldl (tally X) acc.1 := by
  induction records generalizing acc with
  | nil => rfl
  | cons r rest ih =>
      rw [List.foldl_cons, List.foldl_cons, ih]
      congr 1
      rw [replayOne, Pipeline.replay, tally]
      cases parse X r.rawJson with
      | error rejection => rfl
      | ok p => rfl

theorem rebuild_fst (fromRaw : Bool) (db : Db F) :
    (rebuild X fromRaw db).1
      = { (Events.all db).foldl (tally X) ⟨0, 0, 0, 0⟩ with
          orders := (Orders.ids (rebuild X fromRaw db).2).length
          disputes := (Disputes.ids (rebuild X fromRaw db).2).length } := by
  have hall : Events.all (clearProjections (clearRaw fromRaw db)) = Events.all db := by
    cases fromRaw with
    | true => rfl
    | false => rfl
  have hversions : (rebuild X fromRaw db).2.orderVersions
      = (replayed X fromRaw db).orderVersions := by
    rw [rebuild_snd]
    exact swept_frame _ (fun _ _ => rfl) (fun _ _ => rfl) (fun _ _ => rfl) _
  have hdisputes : (rebuild X fromRaw db).2.disputeVersions
      = (replayed X fromRaw db).disputeVersions := by
    rw [rebuild_snd]
    exact swept_frame _ (fun _ _ => rfl) (fun _ _ => rfl) (fun _ _ => rfl) _
  have hrefresh : ∀ (l : List String) (db : Db F),
      (l.foldl (fun db id => Orders.refreshProjection id db) db).disputeVersions
        = db.disputeVersions :=
    foldl_frame _ (fun db id => by rw [refreshOrder_eq])
  rw [Orders.ids, Disputes.ids, hversions, hdisputes]
  simp only [rebuild, replayAll_fst, hall, replayed, Orders.ids, Disputes.ids, replayAll_snd,
    hrefresh]

/-! ### The bestiary -/

theorem sighted_congr {db db' : Db F} (e : Event) (hi : db.instances = db'.instances)
    (hn : db.instanceNames = db'.instanceNames) :
    (sighted e db).instances = (sighted e db').instances ∧
      (sighted e db).instanceNames = (sighted e db').instanceNames := by
  rw [sighted, sighted]
  cases instanceName e with
  | none => simp only [Instances.upsert, hi, hn, and_self]
  | some name => simp only [Instances.upsert, Instances.recordName, hi, hn, and_self]

theorem persist_bestiary (e : Event) (p : Parsed F) (db : Db F) :
    (persist X e p db).instances = (sighted e db).instances ∧
      (persist X e p db).instanceNames = (sighted e db).instanceNames := by
  cases p with
  | order v =>
      rw [persist, refreshOrder_eq]
      exact ⟨rfl, rfl⟩
  | dispute v =>
      rw [persist, refreshDispute_eq]
      exact ⟨rfl, rfl⟩
  | relayList list =>
      obtain ⟨relays, hrelays⟩ := relays_frame list list.relays (sighted e db)
      rw [persist, hrelays]
      exact ⟨rfl, rfl⟩
  | _ => exact ⟨rfl, rfl⟩

/-- The replay builds the bestiary from the events alone. -/
theorem replay_bestiary {db db' : Db F} (e : Event) (hi : db.instances = db'.instances)
    (hn : db.instanceNames = db'.instanceNames) :
    (Pipeline.replay X e db).2.instances = (Pipeline.replay X e db').2.instances ∧
      (Pipeline.replay X e db).2.instanceNames
        = (Pipeline.replay X e db').2.instanceNames := by
  rw [Pipeline.replay, Pipeline.replay]
  cases parse X e with
  | error rejection => exact ⟨hi, hn⟩
  | ok p =>
      obtain ⟨hp, hpn⟩ := persist_bestiary (X := X) e p db
      obtain ⟨hp', hpn'⟩ := persist_bestiary (X := X) e p db'
      obtain ⟨hs, hsn⟩ := sighted_congr e hi hn
      exact ⟨hp.trans (hs.trans hp'.symm), hpn.trans (hsn.trans hpn'.symm)⟩

theorem replayAll_bestiary (records : List EventRecord) {db db' : Db F}
    (hi : db.instances = db'.instances) (hn : db.instanceNames = db'.instanceNames) :
    (records.foldl (fun db r => (Pipeline.replay X r.rawJson db).2) db).instances
        = (records.foldl (fun db r => (Pipeline.replay X r.rawJson db).2) db').instances ∧
      (records.foldl (fun db r => (Pipeline.replay X r.rawJson db).2) db).instanceNames
        = (records.foldl (fun db r => (Pipeline.replay X r.rawJson db).2) db').instanceNames := by
  induction records generalizing db db' with
  | nil => exact ⟨hi, hn⟩
  | cons r rest ih =>
      obtain ⟨hi', hn'⟩ := replay_bestiary (X := X) r.rawJson hi hn
      exact ih hi' hn'

/-! ### The relays -/

/-- The relays table after one list: a URL already known keeps its source. -/
def advertise (list : RelayList) (relays : Table String Relay) : Table String Relay :=
  list.relays.foldl
    (fun relays url => relays.insertIfNew url ⟨url, .nip65 list.pubkey, list.createdAt⟩) relays

/-- What replaying an event does to the relays. -/
def replayRelays (X : Externals F) (relays : Table String Relay) (r : EventRecord) :
    Table String Relay :=
  match parse X r.rawJson with
  | .ok (.relayList list) => advertise list relays
  | _ => relays

theorem upsertAll_relays (list : RelayList) (urls : List String) (db : Db F) :
    (urls.foldl (fun db url => Relays.upsert url (.nip65 list.pubkey) list.createdAt db)
        db).relays
      = urls.foldl (fun relays url =>
          relays.insertIfNew url ⟨url, .nip65 list.pubkey, list.createdAt⟩) db.relays := by
  induction urls generalizing db with
  | nil => rfl
  | cons url rest ih => exact ih _

theorem replay_relays (r : EventRecord) (db : Db F) :
    (Pipeline.replay X r.rawJson db).2.relays = replayRelays X db.relays r := by
  obtain ⟨instances, instanceNames, hsight⟩ := sighted_frame r.rawJson db
  rw [Pipeline.replay, replayRelays]
  cases parse X r.rawJson with
  | error rejection => rfl
  | ok p =>
      cases p with
      | order v =>
          dsimp only
          rw [persist, refreshOrder_eq, hsight]
          rfl
      | dispute v =>
          dsimp only
          rw [persist, refreshDispute_eq, hsight]
          rfl
      | relayList list =>
          dsimp only
          rw [persist, upsertAll_relays, hsight]
          rfl
      | _ =>
          dsimp only
          rw [persist, hsight]
          rfl

theorem replayAll_relays (records : List EventRecord) (db : Db F) :
    (records.foldl (fun db r => (Pipeline.replay X r.rawJson db).2) db).relays
      = records.foldl (replayRelays X) db.relays := by
  induction records generalizing db with
  | nil => rfl
  | cons r rest ih => rw [List.foldl_cons, List.foldl_cons, ih, replay_relays]

/-- A loop whose steps, once made, stay made adds nothing the second time. -/
theorem foldl_again {α β : Type} {f : β → α → β} (made : β → α → Prop)
    (hmade : ∀ b a, made (f b a) a) (hstays : ∀ b a a', made b a → made (f b a') a)
    (hskip : ∀ b a, made b a → f b a = b) (l : List α) (b : β) :
    l.foldl f (l.foldl f b) = l.foldl f b := by
  have hkept : ∀ (l : List α) b a, made b a → made (l.foldl f b) a := by
    intro l
    induction l with
    | nil => exact fun _ _ h => h
    | cons a' rest ih => exact fun b a h => ih (f b a') a (hstays b a a' h)
  have hall : ∀ (l : List α) b, ∀ a ∈ l, made (l.foldl f b) a := by
    intro l
    induction l with
    | nil => exact fun _ _ ha => nomatch ha
    | cons a' rest ih =>
        intro b a ha
        rcases List.mem_cons.mp ha with rfl | ha
        · exact hkept rest _ _ (hmade b a)
        · exact ih (f b a') a ha
  have hidle : ∀ (l : List α) b, (∀ a ∈ l, made b a) → l.foldl f b = b := by
    intro l
    induction l with
    | nil => exact fun _ _ => rfl
    | cons a rest ih =>
        intro b h
        rw [List.foldl_cons, hskip b a (h a List.mem_cons_self)]
        exact ih b (fun a' ha' => h a' (List.mem_cons_of_mem a ha'))
  exact hidle l _ (hall l b)

theorem advertise_again (list : RelayList) (relays : Table String Relay) :
    (∀ url ∈ list.relays, ∃ row, relays[url]? = some row) →
      advertise list relays = relays := by
  rw [advertise]
  induction list.relays with
  | nil => exact fun _ => rfl
  | cons url rest ih =>
      intro h
      obtain ⟨row, hrow⟩ := h url List.mem_cons_self
      rw [List.foldl_cons, insertIfNew_of_some hrow]
      exact ih (fun u hu => h u (List.mem_cons_of_mem url hu))

/-- The lookups a list can change are those of the URLs it names. -/
theorem advertise_spec (list : RelayList) (relays : Table String Relay) :
    (∀ (url : String) row, relays[url]? = some row →
        (advertise list relays)[url]? = some row) ∧
      ∀ url ∈ list.relays, ∃ row, (advertise list relays)[url]? = some row := by
  rw [advertise]
  induction list.relays generalizing relays with
  | nil => exact ⟨fun _ _ h => h, fun _ h => nomatch h⟩
  | cons url rest ih =>
      obtain ⟨hkept, hnamed⟩ := ih
        (relays.insertIfNew url ⟨url, .nip65 list.pubkey, list.createdAt⟩)
      have hstep : ∀ (u : String) row, relays[u]? = some row →
          (relays.insertIfNew url ⟨url, .nip65 list.pubkey, list.createdAt⟩)[u]?
            = some row := by
        intro u row h
        rw [getElem?_insertIfNew_eq, h]
        split
        · rfl
        · rfl
      refine ⟨fun u row h => hkept u row (hstep u row h), ?_⟩
      intro u hu
      rcases List.mem_cons.mp hu with rfl | hu
      · cases hrow : relays[u]? with
        | some row => exact ⟨row, hkept u row (hstep u row hrow)⟩
        | none =>
            refine ⟨⟨u, .nip65 list.pubkey, list.createdAt⟩, hkept u _ ?_⟩
            rw [getElem?_insertIfNew_eq, if_pos rfl, hrow]
            rfl
      · exact hnamed u hu

theorem replayRelays_again (records : List EventRecord) (relays : Table String Relay) :
    records.foldl (replayRelays X) (records.foldl (replayRelays X) relays)
      = records.foldl (replayRelays X) relays := by
  refine foldl_again (fun relays r => ∀ list, parse X r.rawJson = .ok (.relayList list) →
    ∀ url ∈ list.relays, ∃ row, relays[url]? = some row) ?_ ?_ ?_ records relays
  · intro relays r list hp
    rw [replayRelays, hp]
    exact (advertise_spec list relays).2
  · intro relays r r' h list hp url hurl
    obtain ⟨row, hrow⟩ := h list hp url hurl
    refine ⟨row, ?_⟩
    rw [replayRelays]
    split
    next list' _ => exact (advertise_spec list' relays).1 url row hrow
    next => exact hrow
  · intro relays r h
    rw [replayRelays]
    split
    next list hp => exact advertise_again list relays (h list hp)
    next => rfl

/-! ### The result -/

theorem replayed_frame {γ : Type} {column : Db F → γ}
    (hreplay : ∀ e (db : Db F), column (Pipeline.replay X e db).2 = column db)
    (hclear : ∀ fromRaw (db : Db F), column (clearProjections (clearRaw fromRaw db)) = column db)
    (fromRaw : Bool) (db : Db F) : column (replayed X fromRaw db) = column db := by
  have hloop := foldl_frame column fun (db : Db F) (r : EventRecord) =>
    hreplay r.rawJson db
  rw [replayed, hloop, hclear]

theorem replay_cursors (e : Event) (db : Db F) :
    (Pipeline.replay X e db).2.syncState = db.syncState ∧
      (Pipeline.replay X e db).2.indexedKinds = db.indexedKinds := by
  rw [Pipeline.replay]
  cases hp : parse X e with
  | error rejection => exact ⟨rfl, rfl⟩
  | ok p => exact ⟨(persisted hp db).syncState, (persisted hp db).indexedKinds⟩

theorem clear_columns (fromRaw : Bool) (db : Db F) :
    (clearProjections (clearRaw fromRaw db)).events = db.events ∧
    (clearProjections (clearRaw fromRaw db)).relays = db.relays ∧
    (clearProjections (clearRaw fromRaw db)).syncState = db.syncState ∧
    (clearProjections (clearRaw fromRaw db)).indexedKinds = db.indexedKinds ∧
    (clearProjections (clearRaw fromRaw db)).instances = ∅ ∧
    (clearProjections (clearRaw fromRaw db)).instanceNames = ∅ := by
  have hraw : ∃ orderVersions disputeVersions devFees instanceInfo rates,
      clearRaw fromRaw db
        = { db with orderVersions, disputeVersions, devFees, instanceInfo, rates } := by
    cases fromRaw with
    | true => exact ⟨_, _, _, _, _, rfl⟩
    | false => exact ⟨_, _, _, _, _, rfl⟩
  obtain ⟨_, _, _, _, _, hraw⟩ := hraw
  rw [hraw]
  exact ⟨rfl, rfl, rfl, rfl, rfl, rfl⟩

/-- The archive a rebuild reads, before and after its own clears. -/
theorem all_congr {db db' : Db F} (h : db.events = db'.events) :
    Events.all db = Events.all db' := by
  rw [Events.all, Events.all, h]

theorem rebuild_cursors (fromRaw : Bool) (db : Db F) :
    (rebuild X fromRaw db).2.syncState = db.syncState ∧
      (rebuild X fromRaw db).2.indexedKinds = db.indexedKinds := by
  rw [rebuild_snd]
  constructor
  · rw [swept_frame Db.syncState (fun _ _ => rfl) (fun _ _ => rfl)
      (fun _ _ => rfl)]
    exact replayed_frame (fun e db => (replay_cursors e db).1)
      (fun b db => (clear_columns b db).2.2.1) fromRaw db
  · rw [swept_frame Db.indexedKinds (fun _ _ => rfl) (fun _ _ => rfl)
      (fun _ _ => rfl)]
    exact replayed_frame (fun e db => (replay_cursors e db).2)
      (fun b db => (clear_columns b db).2.2.2.1) fromRaw db

theorem rebuild_relays (fromRaw : Bool) (db : Db F) :
    (rebuild X fromRaw db).2.relays
      = (Events.all db).foldl (replayRelays X) db.relays := by
  rw [rebuild_snd, swept_frame Db.relays (fun _ _ => rfl) (fun _ _ => rfl)
    (fun _ _ => rfl), replayed, replayAll_relays, (clear_columns fromRaw db).2.1,
    all_congr (clear_columns fromRaw db).1]

/-- The bestiary a rebuild leaves is a function of the archive. -/
theorem rebuild_bestiary (fromRaw fromRaw' : Bool) {db db' : Db F}
    (he : db.events = db'.events) :
    (rebuild X fromRaw db).2.instances = (rebuild X fromRaw' db').2.instances ∧
      (rebuild X fromRaw db).2.instanceNames
        = (rebuild X fromRaw' db').2.instanceNames := by
  obtain ⟨hce, -, -, -, hci, hcn⟩ := clear_columns fromRaw db
  obtain ⟨hce', -, -, -, hci', hcn'⟩ := clear_columns fromRaw' db'
  have hall : Events.all (clearProjections (clearRaw fromRaw db))
      = Events.all (clearProjections (clearRaw fromRaw' db')) :=
    all_congr (hce.trans (he.trans hce'.symm))
  have hloop := replayAll_bestiary (X := X)
    (Events.all (clearProjections (clearRaw fromRaw db)))
    (hci.trans hci'.symm) (hcn.trans hcn'.symm)
  rw [rebuild_snd, rebuild_snd]
  constructor
  · rw [swept_frame Db.instances (fun _ _ => rfl) (fun _ _ => rfl)
      (fun _ _ => rfl), swept_frame Db.instances (fun _ _ => rfl)
      (fun _ _ => rfl) (fun _ _ => rfl), replayed, replayed, ← hall]
    exact hloop.1
  · rw [swept_frame Db.instanceNames (fun _ _ => rfl) (fun _ _ => rfl)
      (fun _ _ => rfl), swept_frame Db.instanceNames (fun _ _ => rfl)
      (fun _ _ => rfl) (fun _ _ => rfl), replayed, replayed, ← hall]
    exact hloop.2

/-- **A SECOND REBUILD FINDS NOTHING TO DO**, down to the counts it reports. -/
theorem rebuild_again {db : Db F} (h : Settled X db) (fromRaw again : Bool) :
    rebuild X again (rebuild X fromRaw db).2 = rebuild X fromRaw db := by
  have hset := rebuild_settled fromRaw h
  have hevents : (rebuild X fromRaw db).2.events = db.events := rebuild_events fromRaw db
  have hsame := rebuild_sameTables again hset
  refine Prod.ext ?_ ?_
  · rw [rebuild_fst again, rebuild_fst fromRaw, all_congr hevents, Orders.ids, Orders.ids,
      Disputes.ids, Disputes.ids, hsame.orderVersions, hsame.disputeVersions]
  · obtain ⟨hi, hn⟩ := rebuild_bestiary (X := X) again fromRaw hevents
    refine Db.ext (rebuild_events again _) hi hn hsame.instanceInfo hsame.orderVersions
      hsame.orders hsame.devFees hsame.disputeVersions hsame.disputes hsame.rates ?_
      (rebuild_cursors again _).1 (rebuild_cursors again _).2
    rw [rebuild_relays again, rebuild_relays fromRaw, all_congr hevents]
    exact replayRelays_again _ _

/-- **REBUILD REPRODUCES WHAT INGEST DERIVED**: after any calls from an empty
    database, a rebuild of either kind leaves the seven tables exactly as they
    were, and a second one changes nothing at all. -/
theorem rebuild_reproduces (X : Externals F) (P : Policy) (calls : List Call)
    (fromRaw : Bool) :
    SameTables (rebuild X fromRaw (ingestAll X P calls Db.empty)).2
        (ingestAll X P calls Db.empty) ∧
      ∀ again, rebuild X again (rebuild X fromRaw (ingestAll X P calls Db.empty)).2
        = rebuild X fromRaw (ingestAll X P calls Db.empty) := by
  have hset : Settled X (ingestAll X P calls Db.empty) :=
    ingestAll_settled calls settled_empty
  exact ⟨rebuild_sameTables fromRaw hset, rebuild_again hset fromRaw⟩

/-! ## Reachable databases -/

/-- Every database the indexer's own operations can leave behind, under
    whatever configuration each of them ran. -/
inductive Reachable (X : Externals F) : Db F → Prop where
  | empty : Reachable X Db.empty
  | ingest (P : Policy) (c : Call) {db} (h : Reachable X db) :
      Reachable X (ingest X P c db).2
  | rebuild (fromRaw : Bool) {db} (h : Reachable X db) :
      Reachable X (rebuild X fromRaw db).2
  | record (kind : UInt16) (indexedFrom now : Int) {db} (h : Reachable X db) :
      Reachable X (IndexedKinds.record kind indexedFrom now db)
  | relay (url : String) (source : Source) (now : Int) {db} (h : Reachable X db) :
      Reachable X (Relays.upsert url source now db)

theorem Reachable.settled {db : Db F} (h : Reachable X db) : Settled X db := by
  induction h with
  | empty => exact settled_empty
  | ingest P c _ ih => exact ingest_settled c ih
  | rebuild fromRaw _ ih => exact rebuild_settled fromRaw ih
  | record kind indexedFrom now _ ih =>
      exact ⟨tables_frame ih.tables (fun _ => id) rfl rfl rfl rfl rfl rfl, ih.orders,
        ih.disputes⟩
  | relay url source now _ ih =>
      exact ⟨tables_frame ih.tables (fun _ => id) rfl rfl rfl rfl rfl rfl, ih.orders,
        ih.disputes⟩

end Rebuild
