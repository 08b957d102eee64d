import Bestiario.Followed
import Bestiario.Rebuild
import Bestiario.Convergence

/-! # Every command at once

    `backfill`, `sync` and `rebuild` share one database, and nothing keeps them from
    running side by side.  Whatever a command does is a list of MOVES: an event taken
    in, a connection set read, a kind recorded as asked for, one statement of a rebuild.
    Any number of rebuilds are under way at once, and one may die where it stands, with
    what it had emptied still empty.

    The archive decides the tables.  Two databases that hold the same events, however
    they came by them, hold the same seven tables once no rebuild is under way and one
    was started after the last that died; and running it again is all it takes. -/

namespace Dialling

open Keyed Wire Parse Repo Pipeline Derived Rebuild

variable {F : Type} {X : Externals F}

/-! ## Moves -/

/-- What the commands share, and of each rebuild the statements it has still to run.
    `forsaken`: one died, and none has started since. -/
structure Shared (F : Type) where
  db : Db F
  rebuilds : List (List Stmt)
  forsaken : Bool

/-- An empty database, and no rebuild. -/
def Shared.empty : Shared F := ⟨Db.empty, [], false⟩

/-- What a command does at once. -/
inductive Move where
  | sharing (P : Policy) (touch : Touch)
  | recording (kind : UInt16) (indexedFrom now : Int)
  | starting (fromRaw : Bool)
  | running (i : Nat)
  | dying (i : Nat)

/-- What it leaves. -/
def Move.apply (X : Externals F) : Move → Shared F → Shared F
  | .sharing P touch, s => { s with db := touch.apply X P s.db }
  | .recording kind indexedFrom now, s =>
      { s with db := IndexedKinds.record kind indexedFrom now s.db }
  | .starting fromRaw, s => ⟨s.db, s.rebuilds ++ [program fromRaw], false⟩
  | .running i, s =>
      match s.rebuilds[i]? with
      | some (stmt :: todo) =>
          ⟨(exec X stmt s.db).1, s.rebuilds.set i ((exec X stmt s.db).2 ++ todo), s.forsaken⟩
      | _ => s
  | .dying i, s =>
      match s.rebuilds[i]? with
      | some (_ :: _) => ⟨s.db, s.rebuilds.set i [], true⟩
      | _ => s

/-- Moves one after another. -/
def after (X : Externals F) (moves : List Move) (s : Shared F) : Shared F :=
  moves.foldl (fun s move => move.apply X s) s

theorem after_append (moves later : List Move) (s : Shared F) :
    after X (moves ++ later) s = after X later (after X moves s) :=
  List.foldl_append

/-- No rebuild is under way, and none that died is waiting for another. -/
def Shared.Quiet (s : Shared F) : Prop := s.forsaken = false ∧ ∀ todo ∈ s.rebuilds, todo = []

/-- The event archived under an id. -/
def archived (db : Db F) (id : String) : Option Event :=
  db.events[id]?.map EventRecord.rawJson

/-! ## Several rebuilds owe together -/

theorem Needs.append {stmt : Stmt} {todo : List Stmt} (h : Needs stmt todo)
    (more : List Stmt) : Needs stmt (todo ++ more) := by
  cases stmt with
  | clearOrderVersions =>
      exact ⟨List.mem_append_left more h.1, List.mem_append_left more h.2⟩
  | clearDisputeVersions =>
      exact ⟨List.mem_append_left more h.1, List.mem_append_left more h.2⟩
  | clearDevFees => exact List.mem_append_left more h
  | clearInstanceInfo => exact List.mem_append_left more h
  | clearRates => exact List.mem_append_left more h
  | clearOrders => exact List.mem_append_left more h
  | clearDisputes => exact List.mem_append_left more h
  | _ => trivial

theorem Ordered.append {todo more : List Stmt} (h : Ordered todo) (hmore : Ordered more) :
    Ordered (todo ++ more) := by
  induction todo with
  | nil => exact hmore
  | cons stmt rest ih => exact ⟨Needs.append h.1 more, ih h.2⟩

theorem ordered_flatten {todos : List (List Stmt)} (h : ∀ todo ∈ todos, Ordered todo) :
    Ordered todos.flatten := by
  induction todos with
  | nil => trivial
  | cons todo rest ih =>
      exact Ordered.append (h todo List.mem_cons_self)
        (ih fun later hlater => h later (List.mem_cons_of_mem todo hlater))

/-- What is owed does not depend on whose statements come first. -/
theorem Owing.reorder {db : Db F} {todo todo' : List Stmt} (h : Owing X db todo)
    (hmem : ∀ stmt, stmt ∈ todo ↔ stmt ∈ todo') (hordered : Ordered todo') :
    Owing X db todo' where
  tables := h.tables.mono fun _ hk =>
    hk.imp (hmem _).mp fun ⟨e, he, hid⟩ => ⟨e, (hmem _).mp he, hid⟩
  orders := h.orders.imp (hmem _).mp fun hcur =>
    hcur.mono fun _ hk => hk.imp (hmem _).mp (hmem _).mp
  disputes := h.disputes.imp (hmem _).mp fun hcur =>
    hcur.mono fun _ hk => hk.imp (hmem _).mp (hmem _).mp
  archived := fun e he => h.archived e ((hmem _).mpr he)
  ordered := hordered

/-- The tables may lack anything: a list with the whole derivation in it owes enough. -/
theorem owing_of_derivation {db : Db F} {todo : List Stmt}
    (hsound : Consistent X db fun _ => True)
    (harchived : ∀ e, Stmt.replay e ∈ todo → ∃ r, db.events[e.id]? = some r ∧ r.rawJson = e)
    (hordered : Ordered todo) (hderivation : ∀ stmt ∈ derivation, stmt ∈ todo) :
    Owing X db todo where
  tables := hsound.mono fun _ _ => Or.inl (hderivation _ (by decide))
  orders := Or.inl (hderivation _ (by decide))
  disputes := Or.inl (hderivation _ (by decide))
  archived := harchived
  ordered := hordered

theorem derivation_mem_program (fromRaw : Bool) : ∀ stmt ∈ derivation, stmt ∈ program fromRaw :=
  fun _ hstmt => List.mem_append_right _ hstmt

theorem replay_not_mem_program (fromRaw : Bool) (e : Event) :
    Stmt.replay e ∉ program fromRaw := by
  cases fromRaw with
  | true => simp [program, derivation]
  | false => simp [program, derivation]

/-! ## Whatever the moves -/

/-- Every row comes from an archived event; and but for a rebuild that died, the tables
    lack what the rebuilds under way will write and nothing else. -/
structure Upright (X : Externals F) (s : Shared F) : Prop where
  sound : Consistent X s.db fun _ => True
  ordered : ∀ todo ∈ s.rebuilds, Ordered todo
  archived : ∀ todo ∈ s.rebuilds, ∀ e, Stmt.replay e ∈ todo →
    ∃ r, s.db.events[e.id]? = some r ∧ r.rawJson = e
  owing : s.forsaken = false → Owing X s.db s.rebuilds.flatten

section Upright

variable {s : Shared F}

theorem upright_empty : Upright X (Shared.empty : Shared F) where
  sound := settled_empty.tables.mono fun _ _ => trivial
  ordered := fun _ h => nomatch h
  archived := fun _ h => nomatch h
  owing := fun _ => {
    tables := settled_empty.tables.mono fun _ h => h.elim
    orders := Or.inr ((settled_empty (X := X)).orders.mono fun _ h => h.elim)
    disputes := Or.inr ((settled_empty (X := X)).disputes.mono fun _ h => h.elim)
    archived := fun _ h => nomatch h
    ordered := trivial }

/-- A write that keeps whatever debt there is. -/
theorem Upright.write {db' : Db F} (h : Upright X s)
    (htables : ∀ owed, Consistent X s.db owed → Consistent X db' owed)
    (horders : ∀ owed, OrdersCurrent s.db owed → OrdersCurrent db' owed)
    (hdisputes : ∀ owed, DisputesCurrent s.db owed → DisputesCurrent db' owed)
    (hevents : ∀ (id : String) r, s.db.events[id]? = some r → db'.events[id]? = some r) :
    Upright X { s with db := db' } where
  sound := htables _ h.sound
  ordered := h.ordered
  archived := by
    intro todo htodo e he
    obtain ⟨r, hr, hraw⟩ := h.archived todo htodo e he
    exact ⟨r, hevents _ r hr, hraw⟩
  owing := by
    intro hforsaken
    have howing := h.owing hforsaken
    exact {
      tables := htables _ howing.tables
      orders := howing.orders.imp id (horders _)
      disputes := howing.disputes.imp id (hdisputes _)
      archived := fun e he =>
        let ⟨r, hr, hraw⟩ := howing.archived e he
        ⟨r, hevents _ r hr, hraw⟩
      ordered := howing.ordered }

/-- A rebuild starts: from here on nothing is owed that it will not write. -/
theorem Upright.start (h : Upright X s) (fromRaw : Bool) :
    Upright X ⟨s.db, s.rebuilds ++ [program fromRaw], false⟩ := by
  have hordered : ∀ todo ∈ s.rebuilds ++ [program fromRaw], Ordered todo := by
    intro todo htodo
    rcases List.mem_append.mp htodo with hold | hnew
    · exact h.ordered todo hold
    · rw [List.mem_singleton.mp hnew]
      exact ordered_program fromRaw
  have harchived : ∀ todo ∈ s.rebuilds ++ [program fromRaw], ∀ e, Stmt.replay e ∈ todo →
      ∃ r, s.db.events[e.id]? = some r ∧ r.rawJson = e := by
    intro todo htodo e he
    rcases List.mem_append.mp htodo with hold | hnew
    · exact h.archived todo hold e he
    · rw [List.mem_singleton.mp hnew] at he
      exact absurd he (replay_not_mem_program fromRaw e)
  refine ⟨h.sound, hordered, harchived, fun _ => ?_⟩
  refine owing_of_derivation h.sound ?_ (ordered_flatten hordered) ?_
  · intro e he
    obtain ⟨todo, htodo, hmem⟩ := List.mem_flatten.mp he
    exact harchived todo htodo e hmem
  · intro stmt hstmt
    exact List.mem_flatten.mpr ⟨program fromRaw, List.mem_append_right _ List.mem_cons_self,
      derivation_mem_program fromRaw stmt hstmt⟩

/-- One list of the rebuilds brought to the front. -/
theorem mem_flatten_set {todos : List (List Stmt)} {i : Nat} {todo : List Stmt}
    (h : todos[i]? = some todo) (todo' : List Stmt) (stmt : Stmt) :
    stmt ∈ (todos.set i todo').flatten ↔ stmt ∈ todo' ++ (todos.eraseIdx i).flatten := by
  obtain ⟨hi, -⟩ := List.getElem?_eq_some_iff.mp h
  exact (List.set_perm_cons_eraseIdx hi todo').flatten.mem_iff

theorem set_self {todos : List (List Stmt)} {i : Nat} {todo : List Stmt}
    (h : todos[i]? = some todo) : todos.set i todo = todos := by
  obtain ⟨hi, rfl⟩ := List.getElem?_eq_some_iff.mp h
  exact List.set_getElem_self hi

/-- A rebuild takes a step. -/
theorem Upright.run {i : Nat} {stmt : Stmt} {todo : List Stmt} (h : Upright X s)
    (hi : s.rebuilds[i]? = some (stmt :: todo)) :
    Upright X ⟨(exec X stmt s.db).1, s.rebuilds.set i ((exec X stmt s.db).2 ++ todo),
      s.forsaken⟩ := by
  have hmem : stmt :: todo ∈ s.rebuilds := List.mem_of_getElem? hi
  have hown : Ordered ((exec X stmt s.db).2 ++ todo) :=
    ordered_append (needs_scheduled stmt s.db) (h.ordered _ hmem).2
  have hordered : ∀ later ∈ s.rebuilds.set i ((exec X stmt s.db).2 ++ todo),
      Ordered later := by
    intro later hlater
    rcases List.mem_or_eq_of_mem_set hlater with hold | heq
    · exact h.ordered later hold
    · rw [heq]
      exact hown
  -- Whatever is owed by others, this rebuild owes with the derivation after it.
  have halone : Owing X s.db (stmt :: (todo ++ derivation)) := by
    refine owing_of_derivation h.sound ?_
      (Ordered.append (h.ordered _ hmem) (ordered_program false)) ?_
    · intro e he
      rcases List.mem_append.mp (show _ ∈ (stmt :: todo) ++ derivation from he) with hown | hderivation
      · exact h.archived _ hmem e hown
      · exact absurd hderivation (replay_not_mem_program false e)
    · exact fun _ hstmt => List.mem_append_right (stmt :: todo) hstmt
  have hdone := owing_exec halone
  refine ⟨hdone.tables.mono fun _ _ => trivial, hordered, ?_, ?_⟩
  · intro later hlater e he
    rcases List.mem_or_eq_of_mem_set hlater with hold | heq
    · rw [exec_events]
      exact h.archived later hold e he
    · rw [heq] at he
      refine hdone.archived e ?_
      rw [← List.append_assoc]
      exact List.mem_append_left _ he
  · intro hforsaken
    have hrest : ∀ later ∈ s.rebuilds.eraseIdx i, Ordered later := fun later hlater =>
      h.ordered later ((List.eraseIdx_sublist s.rebuilds i).subset hlater)
    have hfront : Owing X s.db (stmt :: (todo ++ (s.rebuilds.eraseIdx i).flatten)) := by
      refine Owing.reorder (h.owing hforsaken) ?_
        (Ordered.append (h.ordered _ hmem) (ordered_flatten hrest))
      intro other
      rw [← List.cons_append, ← mem_flatten_set hi, set_self hi]
    refine Owing.reorder (owing_exec hfront) ?_ (ordered_flatten hordered)
    intro other
    rw [mem_flatten_set hi, List.append_assoc]

/-- A rebuild dies: what it had emptied stays empty. -/
theorem Upright.die {i : Nat} (h : Upright X s) :
    Upright X ⟨s.db, s.rebuilds.set i [], true⟩ where
  sound := h.sound
  ordered := by
    intro todo htodo
    rcases List.mem_or_eq_of_mem_set htodo with hold | heq
    · exact h.ordered todo hold
    · rw [heq]
      trivial
  archived := by
    intro todo htodo e he
    rcases List.mem_or_eq_of_mem_set htodo with hold | heq
    · exact h.archived todo hold e he
    · rw [heq] at he
      exact nomatch he
  owing := fun hforsaken => nomatch hforsaken

/-- **STEP**. -/
theorem Upright.step (move : Move) (h : Upright X s) : Upright X (move.apply X s) := by
  cases move with
  | sharing P touch =>
      cases touch with
      | connect S now =>
          show Upright X { s with db := (connectionSet S now s.db).2 }
          rw [connectionSet_db]
          exact h.write
            (fun _ hc => tables_frame hc (fun _ => id) rfl rfl rfl rfl rfl rfl)
            (fun _ => id) (fun _ => id) (fun _ _ => id)
      | ingest c =>
          exact h.write (fun _ => ingest_consistent c) (fun _ => ingest_ordersCurrent c)
            (fun _ => ingest_disputesCurrent c) (fun _ _ => ingest_events_mono P c)
  | recording kind indexedFrom now =>
      exact h.write (fun _ hc => tables_frame hc (fun _ => id) rfl rfl rfl rfl rfl rfl)
        (fun _ => id) (fun _ => id) (fun _ _ => id)
  | starting fromRaw => exact h.start fromRaw
  | running i =>
      rw [Move.apply]
      split
      · next stmt todo hi => exact h.run hi
      · exact h
  | dying i =>
      rw [Move.apply]
      split
      · exact h.die
      · exact h

/-- **STEP**: an archived event stays as it was archived. -/
theorem events_apply (move : Move) {id : String} {r : EventRecord}
    (h : s.db.events[id]? = some r) : (move.apply X s).db.events[id]? = some r := by
  cases move with
  | sharing P touch =>
      cases touch with
      | connect S now =>
          show (connectionSet S now s.db).2.events[id]? = some r
          rw [connectionSet_db]
          exact h
      | ingest c => exact ingest_events_mono P c h
  | recording kind indexedFrom now => exact h
  | starting fromRaw => exact h
  | running i =>
      rw [Move.apply]
      split
      · rw [exec_events]
        exact h
      · exact h
  | dying i =>
      rw [Move.apply]
      split
      · exact h
      · exact h

end Upright

/-- **RUN**. -/
theorem upright_after {s : Shared F} (moves : List Move) (h : Upright X s) :
    Upright X (after X moves s) := by
  induction moves generalizing s with
  | nil => exact h
  | cons move rest ih => exact ih (h.step move)

theorem events_after {s : Shared F} (moves : List Move) {id : String} {r : EventRecord}
    (h : s.db.events[id]? = some r) : (after X moves s).db.events[id]? = some r := by
  induction moves generalizing s with
  | nil => exact h
  | cons move rest ih => exact ih (events_apply move h)

theorem Upright.settled {s : Shared F} (h : Upright X s) (hquiet : s.Quiet) :
    Derived.Settled X s.db := by
  have howing := h.owing hquiet.1
  rw [List.flatten_eq_nil_iff.mpr hquiet.2] at howing
  exact settled_of_owing_nil howing

/-- Whoever died, a rebuild run to its end settles everything. -/
theorem Upright.rebuilt {s : Shared F} (h : Upright X s) (fromRaw : Bool) :
    Derived.Settled X (Rebuild.rebuild X fromRaw s.db).2 := by
  refine settled_interleaved
    (interleaved_rebuild (P := ⟨[], false, []⟩) (fun _ _ => True) fromRaw s.db) ?_
  exact owing_of_derivation h.sound
    (fun e he => absurd he (replay_not_mem_program fromRaw e)) (ordered_program fromRaw)
    (derivation_mem_program fromRaw)

/-- The tables hold no more of the archive than its events. -/
theorem settled_of_archived {db db' : Db F} (h : Derived.Settled X db)
    (hevents : ∀ id, archived db id = archived db' id)
    (hkeyed : ∀ (k : String) r, db'.events[k]? = some r →
      r.id = k ∧ r = EventRecord.new r.rawJson r.relayUrl r.seenAt) :
    Derived.Settled X { db with events := db'.events } := by
  have htracks : ∀ {V : Type} {read : Event → Option V} {view : Table String V},
      Tracks (fun r : EventRecord => read r.rawJson) db.events view (fun _ => False) →
        Tracks (fun r : EventRecord => read r.rawJson) db'.events view fun _ => False := by
    intro V read view hview
    constructor
    · intro k v hk
      obtain ⟨r, hr, hread⟩ := hview.sound k v hk
      have hsame := hevents k
      rw [archived, archived, hr, Option.map_some] at hsame
      obtain ⟨r', hr', heq⟩ := Option.map_eq_some_iff.mp hsame.symm
      exact ⟨r', hr', by rw [heq]; exact hread⟩
    · intro k r v hk hread howed
      have hsame := hevents k
      rw [archived, archived, hk, Option.map_some] at hsame
      obtain ⟨r', hr', heq⟩ := Option.map_eq_some_iff.mp hsame
      exact hview.complete k r' v hr' (by rw [heq]; exact hread) howed
  exact {
    tables := {
      keyed := hkeyed
      orderVersions := htracks h.tables.orderVersions
      disputeVersions := htracks h.tables.disputeVersions
      devFees := htracks h.tables.devFees
      flags := h.tables.flags
      instanceInfo := htracks h.tables.instanceInfo
      rates := htracks h.tables.rates }
    orders := h.orders
    disputes := h.disputes }


/-! ## The commands are made of them -/

/-- Moves lead from one database to another, whatever rebuilds are under way. -/
def Moved (X : Externals F) (db db' : Db F) : Prop :=
  ∃ moves, ∀ rebuilds forsaken,
    after X moves ⟨db, rebuilds, forsaken⟩ = ⟨db', rebuilds, forsaken⟩

section Commands

variable {P : Policy} {db db' db'' : Db F}

theorem Moved.refl (db : Db F) : Moved X db db := ⟨[], fun _ _ => rfl⟩

theorem Moved.trans (h : Moved X db db') (h' : Moved X db' db'') : Moved X db db'' := by
  obtain ⟨moves, hmoves⟩ := h
  obtain ⟨later, hlater⟩ := h'
  refine ⟨moves ++ later, fun rebuilds forsaken => ?_⟩
  rw [after_append, hmoves, hlater]

theorem Moved.touch (P : Policy) (touch : Touch) (db : Db F) :
    Moved X db (touch.apply X P db) := ⟨[.sharing P touch], fun _ _ => rfl⟩

theorem Moved.record (kind : UInt16) (indexedFrom now : Int) (db : Db F) :
    Moved X db (IndexedKinds.record kind indexedFrom now db) :=
  ⟨[.recording kind indexedFrom now], fun _ _ => rfl⟩

theorem Moved.touched (P : Policy) (touches : List Touch) (db : Db F) :
    Moved X db (touched X P touches db) := by
  induction touches generalizing db with
  | nil => exact Moved.refl db
  | cons touch rest ih => exact (Moved.touch P touch db).trans (ih (touch.apply X P db))

/-- `backfill` records at its end what it asked for. -/
def Invocation.record (I : Invocation) (db : Db F) : Db F :=
  I.kinds.foldl (fun db kind => IndexedKinds.record kind I.range.from' I.now db) db

theorem moved_records (kinds : List UInt16) (indexedFrom now : Int) (db : Db F) :
    Moved X db (kinds.foldl (fun db kind => IndexedKinds.record kind indexedFrom now db) db) := by
  induction kinds generalizing db with
  | nil => exact Moved.refl db
  | cons kind rest ih => exact (Moved.record kind indexedFrom now db).trans (ih _)

/-- A `backfill` that has come to its end. -/
theorem backfill_moved {I : Invocation} {fuel : Nat} {p : Progress F}
    (h : I.run X fuel db = some (.walked p)) : Moved X db (I.record p.db) := by
  have hwalked : Moved X db p.db := by
    rw [(told_run h).left]
    exact Moved.touched I.policy p.touches db
  exact hwalked.trans (moved_records I.kinds I.range.from' I.now p.db)

/-- The filters of one relay record their kinds. -/
theorem filters_moved (S : Station) (relay : String) (vouched : List String) (now : Int)
    (kinds : List UInt16) (db : Db F) :
    Moved X db (S.filters relay vouched now kinds db).2 := by
  induction kinds generalizing db with
  | nil => exact Moved.refl db
  | cons kind rest ih =>
      rw [Station.filters, Station.filter]
      cases Sync.forKind kind S.authors vouched _ none with
      | none => exact ih db
      | some filter => exact (Moved.record kind _ now db).trans (ih _)

theorem targets_moved (S : Station) (kinds : List UInt16) (vouched : List String) (now : Int)
    (relays : List String) (db : Db F) :
    Moved X db (S.targetsFrom kinds vouched now relays db).2 := by
  induction relays generalizing db with
  | nil => exact Moved.refl db
  | cons relay rest ih => exact (filters_moved S relay vouched now kinds db).trans (ih _)

section Follow

variable {S : Station} {s s' : State F} {signal : Signal}

theorem moved_rediscover (h : Moved X db s.db) (now : Int) :
    Moved X db (s.rediscover S now).2.db := by
  rw [State.rediscover]
  by_cases hdiscover : S.settings.discoverRelays = true
  · rw [if_pos hdiscover]
    exact h.trans (Moved.touch S.policy (.connect S.settings now) s.db)
  · rw [if_neg hdiscover]
    exact h

/-- **STEP**. -/
theorem moved_stepped (h : Moved X db s.db) (hstep : Stepped X S s signal s') :
    Moved X db s'.db := by
  have htake : ∀ relay e now, Moved X db (s.take X S relay e now).2.db := fun relay e now =>
    h.trans (Moved.touch S.policy (.ingest ⟨e, relay, now⟩) s.db)
  cases hstep with
  | @started now later answers opened _ =>
      have htargets := targets_moved (X := X) S taggedKinds
        (S.vouched (s.rediscover S now).2.db) later
        ((s.rediscover S now).2.client.reattach ⟨S.parseUrl, answers⟩).relays
        (s.rediscover S now).2.db
      rw [Station.start]
      dsimp only
      by_cases hopened : opened = true
      · rw [if_pos hopened]
        exact (moved_rediscover h now).trans htargets
      · rw [if_neg hopened]
        exact (moved_rediscover h now).trans htargets
  | @subscribed now later opened namedRelays _ =>
      have hboth : ∀ q : State F, Moved X db q.db → Moved X db
          (let targets := S.targets indexedKinds later q.client q.db
           let q := { q with db := targets.2 }
           if opened then { q with
            phase := .live, attempt := 0, waits := []
            asked := q.asked ++ askedOf false targets.1 }
           else q.rest).db := by
        intro q hq
        have htargets := targets_moved (X := X) S indexedKinds (S.vouched q.db) later
          q.client.relays q.db
        dsimp only
        by_cases hopened : opened = true
        · rw [if_pos hopened]
          exact hq.trans htargets
        · rw [if_neg hopened]
          exact hq.trans htargets
      rw [Station.subscribe]
      cases namedRelays with
      | false => exact hboth s h
      | true =>
          dsimp only
          rw [if_pos rfl]
          by_cases hchanged : (s.rediscover S now).1 = true
          · rw [if_pos hchanged]
            exact moved_rediscover h now
          · rw [if_neg hchanged]
            exact hboth _ (moved_rediscover h now)
  | primingEvent _ => exact htake _ _ _
  | @liveEvent relay e now later _ =>
      rw [Station.deliver]
      dsimp only
      split_ifs
      · exact moved_rediscover (htake relay e now) later
      · exact moved_rediscover (htake relay e now) later
      · exact htake relay e now
  | replayed _ => exact h
  | idle _ => exact h
  | timedOut _ => exact h
  | primingEnded _ => exact h
  | liveEnded _ => exact h
  | woke _ => exact h
  | stopped => exact h

end Follow

/-- A `sync`, wherever it is cut. -/
theorem sync_moved {S : Station} {client : RelayClient} {signals : List Signal} {s : State F}
    (h : S.follow X signals (Station.begin client db) = some s) : Moved X db s.db :=
  follow_induction (I := fun s => Moved X db s.db) (Moved.refl db)
    (fun _ _ _ hs hstep => moved_stepped hs hstep) h

end Commands

/-! ## The archive decides -/

/-- Two settled databases with the same events have the same tables. -/
theorem same_of_archived {db db' : Db F} (h : Derived.Settled X db)
    (h' : Derived.Settled X db') (hevents : ∀ id, archived db id = archived db' id) :
    SameTables db db' := by
  have hmoved := settled_of_archived h hevents h'.tables.keyed
  have hsame := hmoved.unique h' rfl
  exact ⟨hsame.orderVersions, hsame.orders, hsame.disputeVersions, hsame.disputes,
    hsame.devFees, hsame.instanceInfo, hsame.rates⟩

/-- **THE ARCHIVE DECIDES THE TABLES.**  Take two databases, each left by any mixture of
    backfills, syncs and rebuilds, from any relays and under any policies, with rebuilds
    running beside the rest and beside one another, and some of them dying.  If the same
    events are archived in both, no rebuild is under way and none that died is waiting
    for another, then the order versions, orders, dispute versions, disputes, dev fees
    with their flags, instance infos and rates of both are equal. -/
theorem archive_decides {X : Externals F} {moves others : List Move}
    (hquiet : (after X moves Shared.empty).Quiet) (hothers : (after X others Shared.empty).Quiet)
    (hevents : ∀ id, archived (after X moves Shared.empty).db id
      = archived (after X others Shared.empty).db id) :
    SameTables (after X moves Shared.empty).db (after X others Shared.empty).db := by
  exact same_of_archived ((upright_after moves (upright_empty (X := X))).settled hquiet)
    ((upright_after others (upright_empty (X := X))).settled hothers) hevents

open Convergence in
/-- A rebuild that dies when it has emptied every version table and both projections, an
    order beside it, and a second rebuild. -/
def died : List Move :=
  [.sharing openPolicy (.ingest ⟨pendingOrder, "wss://a", 1785601000⟩), .starting true]
    ++ List.replicate 7 (.running 0)
    ++ [.sharing openPolicy (.ingest ⟨completedOrder, "wss://a", 1785601001⟩), .dying 0,
      .starting false]
    ++ List.replicate 11 (.running 1)

open Convergence in
/-- The same two orders, the other way round, and no rebuild. -/
def undisturbed : List Move :=
  [.sharing openPolicy (.ingest ⟨completedOrder, "wss://a", 1785601001⟩),
    .sharing openPolicy (.ingest ⟨pendingOrder, "wss://a", 1785601000⟩)]

theorem died_archive_decides :
    SameTables (after Convergence.trade died Shared.empty).db
      (after Convergence.trade undisturbed Shared.empty).db := by
  refine archive_decides ⟨by decide +kernel, by decide +kernel⟩
    ⟨by decide +kernel, by decide +kernel⟩ fun id => ?_
  have hevents : (after Convergence.trade died Shared.empty).db.events
      = (after Convergence.trade undisturbed Shared.empty).db.events :=
    Std.ExtTreeMap.ext_toList (by decide +kernel)
  rw [archived, archived, hevents]

/-- A rebuild run to its end after the moves. -/
def healed (X : Externals F) (moves : List Move) (fromRaw : Bool) : Db F :=
  (Rebuild.rebuild X fromRaw (after X moves Shared.empty).db).2

/-- **RUNNING IT AGAIN IS ALL IT TAKES.**  Wherever rebuilds died, whatever else has been
    written beside them and since, a rebuild of either kind that then runs to its end
    leaves nothing owed: another rebuild changes none of the seven tables, and none of
    them differs from what any other database with the same archive has once quiet. -/
theorem rebuild_heals (X : Externals F) (moves : List Move) (fromRaw : Bool) :
    (∀ id, archived (healed X moves fromRaw) id
        = archived (after X moves Shared.empty).db id)
      ∧ (∀ again, SameTables (Rebuild.rebuild X again (healed X moves fromRaw)).2
        (healed X moves fromRaw))
      ∧ ∀ others, (after X others Shared.empty).Quiet →
        (∀ id, archived (healed X moves fromRaw) id
          = archived (after X others Shared.empty).db id) →
        SameTables (healed X moves fromRaw) (after X others Shared.empty).db := by
  have hset : Derived.Settled X (healed X moves fromRaw) :=
    (upright_after moves (upright_empty (X := X))).rebuilt fromRaw
  refine ⟨fun id => ?_, fun again => Rebuild.rebuild_sameTables again hset,
    fun others hquiet hevents => ?_⟩
  · have hevents : (healed X moves fromRaw).events = (after X moves Shared.empty).db.events :=
      Rebuild.rebuild_events fromRaw _
    rw [archived, archived, hevents]
  · exact same_of_archived hset
      ((upright_after others (upright_empty (X := X))).settled hquiet) hevents

end Dialling
