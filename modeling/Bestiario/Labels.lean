import Bestiario.Address
import Bestiario.Bestiary
import Bestiario.Series
import Bestiario.Windowed

/-! # Labels

    An instance is known to a report by its label, and to the database by its
    pubkey.  The label carries the name the instance chose and eight characters of
    the key, or the whole key when it chose no name; every slice and every
    comparison is keyed by it.  Two keys get one label when they chose one name and
    start alike, and in no other way. -/

namespace Load

open Keyed Wire Parse Repo Pipeline Derived Rebuild
open Publish (isHex64 isHex64_iff)
open Stats (Order Window Floats Profile Metric)

variable {F : Type} {X : Externals F} {P : Pipeline.Policy} {db : Db F}

/-! ## Two labels -/

/-- Two instances that chose one name and whose keys start alike. -/
def Alike (p : String) (name : Option String) (q : String) (name' : Option String) : Prop :=
  name ≠ none ∧ name = name' ∧ p.toList.take shortPubkeyLen = q.toList.take shortPubkeyLen

theorem toList_instanceLabel (pubkey name : String) :
    (instanceLabel pubkey (some name)).toList
      = name.toList ++ (' ' :: '(' :: pubkey.toList.take shortPubkeyLen ++ [')']) := by
  simp [instanceLabel]

/-- A named instance is labelled by more than hex. -/
theorem label_ne_pubkey {p q name : String} (hq : isHex64 q = true) :
    instanceLabel p (some name) ≠ q := by
  intro heq
  have hmem : '(' ∈ q.toList := by
    rw [← heq, toList_instanceLabel]
    simp
  exact absurd ((isHex64_iff.mp hq).2 '(' hmem) (by decide)

/-- **WHEN TWO LABELS ARE ONE**: the keys are, neither being named, or the instances
    are alike. -/
theorem instanceLabel_eq_iff {p q : String} (hp : isHex64 p = true) (hq : isHex64 q = true)
    (name name' : Option String) :
    instanceLabel p name = instanceLabel q name'
      ↔ (name = none ∧ name' = none ∧ p = q) ∨ Alike p name q name' := by
  have htake : ∀ {r : String}, isHex64 r = true → (r.toList.take shortPubkeyLen).length = 8 := by
    intro r hr
    rw [List.length_take, (isHex64_iff.mp hr).1]
    rfl
  cases name with
  | none =>
      cases name' with
      | none =>
          constructor
          · exact fun heq => Or.inl ⟨rfl, rfl, heq⟩
          · rintro (⟨-, -, heq⟩ | halike)
            · exact heq
            · exact absurd rfl halike.1
      | some name' =>
          constructor
          · exact fun heq => absurd heq.symm (label_ne_pubkey hp)
          · rintro (⟨-, hname, -⟩ | halike)
            · exact nomatch hname
            · exact nomatch halike.2.1
  | some name =>
      cases name' with
      | none =>
          constructor
          · exact fun heq => absurd heq (label_ne_pubkey hq)
          · rintro (⟨hname, -⟩ | halike)
            · exact nomatch hname
            · exact nomatch halike.2.1
      | some name' =>
          rw [← String.toList_inj, toList_instanceLabel, toList_instanceLabel]
          constructor
          · intro heq
            have hlength : (' ' :: '(' :: p.toList.take shortPubkeyLen ++ [')']).length
                = (' ' :: '(' :: q.toList.take shortPubkeyLen ++ [')']).length := by
              simp only [List.length_append, List.length_cons, htake hp, htake hq]
            obtain ⟨hname, hend⟩ := List.append_inj' heq hlength
            have hshort := List.append_cancel_right (List.cons.inj (List.cons.inj hend).2).2
            exact Or.inr ⟨Option.some_ne_none _, congrArg some (String.toList_inj.mp hname), hshort⟩
          · rintro (⟨hname, -⟩ | ⟨-, hname, hshort⟩)
            · exact nomatch hname
            · rw [Option.some.inj hname, hshort]

/-! ## Whose rows there are -/

/-- Every row of the bestiary is a verified publisher's, filed under its key. -/
def Drawn (X : Externals F) (db : Db F) : Prop :=
  ∀ (pubkey : String) row, db.instances[pubkey]? = some row →
    row.pubkey = pubkey ∧ ∃ e, X.verify e = true ∧ e.pubkey = pubkey

theorem Drawn.congr {db' : Db F} (h : Drawn X db) (hi : db'.instances = db.instances) :
    Drawn X db' := by
  rw [Drawn, hi]
  exact h

theorem Drawn.upsert {e : Event} (h : Drawn X db) (he : X.verify e = true)
    (name : Option String) (publishedAt : Int) :
    Drawn X (Instances.upsert e.pubkey name publishedAt db) := by
  intro pubkey row hrow
  rw [Bestiary.getElem?_upsert] at hrow
  by_cases hours : e.pubkey = pubkey
  · rw [if_pos hours] at hrow
    cases hrow
    exact ⟨(Bestiary.entry_pubkey _ _ _ _ fun old hold => (h _ old hold).1).trans hours,
      e, he, hours⟩
  · rw [if_neg hours] at hrow
    exact h pubkey row hrow

theorem Drawn.persist {e : Event} (h : Drawn X db) (he : X.verify e = true)
    (parsed : Parsed F) : Drawn X (persist X e parsed db) := by
  have hsighted : (sighted e db).instances
      = (Instances.upsert e.pubkey (Wire.instanceName e) e.at db).instances := by
    rw [sighted]
    cases Wire.instanceName e with
    | none => rfl
    | some name => rfl
  exact (h.upsert he _ _).congr ((persist_bestiary e parsed db).1.trans hsighted)

/-- The replay of a verified archive draws rows of verified publishers. -/
theorem Drawn.replayAll {records : List EventRecord}
    (hverified : ∀ r ∈ records, X.verify r.rawJson = true) (h : Drawn X db) :
    Drawn X (records.foldl (fun db r => (Pipeline.replay X r.rawJson db).2) db) := by
  induction records generalizing db with
  | nil => exact h
  | cons r rest ih =>
      refine ih (fun r' hr' => hverified r' (List.mem_cons_of_mem r hr')) ?_
      show Drawn X (Pipeline.replay X r.rawJson db).2
      rw [Pipeline.replay]
      cases parse X r.rawJson with
      | error rejection => exact h
      | ok parsed => exact h.persist (hverified r List.mem_cons_self) parsed

/-- **THE INVARIANT**: what is archived was verified, the rows are of verified
    publishers, and whoever has a readable event archived has one. -/
structure Attended (X : Externals F) (db : Db F) : Prop where
  verified : ∀ (k : String) r, db.events[k]? = some r → X.verify r.rawJson = true
  drawn : Drawn X db
  present : ∀ pubkey, Sightings.newest X pubkey db ≠ none → Sightings.lastSeen pubkey db ≠ none

theorem attended_empty : Attended X (Db.empty : Db F) where
  verified := fun _ _ h => nomatch h
  drawn := fun _ _ h => nomatch h
  present := by
    intro pubkey hnew
    obtain ⟨stamp, hstamp⟩ := Option.ne_none_iff_exists'.mp hnew
    obtain ⟨⟨k, r, hk, -⟩, -⟩ := Sightings.newest_eq_some_iff.mp hstamp
    exact nomatch hk

/-- A publisher has a readable event archived. -/
theorem newest_ne_none_iff {pubkey : String} :
    Sightings.newest X pubkey db ≠ none
      ↔ ∃ (k : String) (r : EventRecord), db.events[k]? = some r
        ∧ Sightings.readable X pubkey r = true := by
  constructor
  · intro hnew
    obtain ⟨stamp, hstamp⟩ := Option.ne_none_iff_exists'.mp hnew
    obtain ⟨⟨k, r, hk, hr, -⟩, -⟩ := Sightings.newest_eq_some_iff.mp hstamp
    exact ⟨k, r, hk, hr⟩
  · rintro ⟨k, r, hk, hr⟩
    obtain ⟨kept, hnew, -⟩ := Sightings.newest_ge hk hr
    rw [hnew]
    exact Option.some_ne_none kept

/-- **STEP**: a call. -/
theorem attended_ingest {c : Call} (h : Attended X db) : Attended X (ingest X P c db).2 where
  verified := by
    intro k r hk
    rcases ingest_events_cases hk with hold | ⟨harch, -, rfl⟩
    · exact h.verified k r hold
    · exact verify_of_admission (admission_of_archives harch)
  drawn := by
    obtain ⟨outcome, out, heq, hcases⟩ := ingest_cases X P c db
    rw [heq]
    cases hcases with
    | turnedAway _ => exact h.drawn
    | unread _ _ => exact h.drawn
    | duplicate _ _ _ _ => exact h.drawn
    | redundant hadm _ _ => exact h.drawn.upsert (verify_of_admission hadm.admission) none _
    | @stored parsed hadm _ _ _ =>
        have hframe : Drawn X { db with events := db.events.insertIfNew c.event.id c.record } :=
          h.drawn
        exact hframe.persist (verify_of_admission hadm.admission) parsed
  present := by
    intro pubkey hnew
    obtain ⟨outcome, out, heq, hcases⟩ := ingest_cases X P c db
    rw [heq] at hnew ⊢
    obtain ⟨k, r, hk, hr⟩ := newest_ne_none_iff.mp hnew
    -- A row stays, and is there if the event was in the archive before.
    have hold : db.events[k]? = some r → Sightings.lastSeen pubkey db ≠ none := fun hk =>
      h.present pubkey (newest_ne_none_iff.mpr ⟨k, r, hk, hr⟩)
    cases hcases with
    | turnedAway _ => exact hold hk
    | duplicate _ _ _ _ => exact hold hk
    | unread _ hp =>
        rcases getElem?_insertIfNew_eq_some.mp hk with hk | ⟨-, -, rfl⟩
        · exact hold hk
        · rw [Sightings.readable, show c.record.rawJson = c.event from rfl, hp] at hr
          simp [Except.isOk, Except.toBool] at hr
    | redundant _ _ _ =>
        show Sightings.lastSeen pubkey (Instances.upsert _ _ _ db) ≠ none
        rw [Sightings.lastSeen_upsert]
        split
        · exact Option.some_ne_none _
        · exact hold hk
    | @stored parsed _ hp _ _ =>
        show Sightings.lastSeen pubkey (persist X c.event parsed _) ≠ none
        rw [Sightings.lastSeen_persist]
        by_cases hours : c.event.pubkey = pubkey
        · rw [if_pos hours]
          exact Option.some_ne_none _
        · rw [if_neg hours]
          have hk : (persist X c.event parsed
              { db with events := db.events.insertIfNew c.event.id c.record }).events[k]?
                = some r := hk
          rw [(persisted hp _).events] at hk
          rcases getElem?_insertIfNew_eq_some.mp hk with hk | ⟨-, -, rfl⟩
          · exact hold hk
          · rw [Sightings.readable, Bool.and_eq_true, beq_iff_eq] at hr
            exact absurd hr.1 hours

/-- **STEP**: a rebuild. -/
theorem attended_rebuild (fromRaw : Bool) (h : Attended X db) :
    Attended X (rebuild X fromRaw db).2 where
  verified := by
    rw [rebuild_events]
    exact h.verified
  drawn := by
    obtain ⟨hevents, -, -, -, hinstances, -⟩ := clear_columns fromRaw db
    have hswept : (rebuild X fromRaw db).2.instances = (replayed X fromRaw db).instances := by
      rw [rebuild_snd]
      exact swept_frame Db.instances (fun _ _ => rfl) (fun _ _ => rfl) (fun _ _ => rfl) _
    have hcleared : Drawn X (clearProjections (clearRaw fromRaw db)) := by
      intro pubkey row hrow
      rw [hinstances] at hrow
      exact nomatch hrow
    have hverified : ∀ r ∈ Events.all (clearProjections (clearRaw fromRaw db)),
        X.verify r.rawJson = true := by
      intro r hr
      rw [all_congr hevents] at hr
      obtain ⟨⟨k, hk⟩, -⟩ := mem_rowsBy.mp hr
      exact h.verified k r hk
    exact (hcleared.replayAll hverified).congr hswept
  present := by
    intro pubkey hnew
    rw [Sightings.lastSeen_rebuild]
    obtain ⟨k, r, hk, hr⟩ := newest_ne_none_iff.mp hnew
    rw [rebuild_events] at hk
    exact newest_ne_none_iff.mpr ⟨k, r, hk, hr⟩

/-- **RUN**: every database the indexer can leave behind. -/
theorem Reachable.attended (h : Reachable X db) : Attended X db := by
  induction h with
  | empty => exact attended_empty
  | ingest P c _ ih => exact attended_ingest ih
  | rebuild fromRaw _ ih => exact attended_rebuild fromRaw ih
  | record kind indexedFrom now _ ih => exact ⟨ih.verified, ih.drawn, ih.present⟩
  | relay url source now _ ih => exact ⟨ih.verified, ih.drawn, ih.present⟩

/-- Whoever published an order has a row, filed under the order's key. -/
theorem publisher_row (h : Reachable X db) {k : String} {row : OrderRow F}
    (hk : db.orders[k]? = some row) : ∃ inst, db.instances[row.pubkey]? = some inst := by
  obtain ⟨-, hrow⟩ := orders_projected h.settled hk
  simp only [Orders.projected, Option.bind_eq_bind, Option.bind_eq_some_iff] at hrow
  obtain ⟨latest, hlatest, _, -, _, -, hrow⟩ := hrow
  obtain ⟨⟨k', hk'⟩, -⟩ := first_mem hlatest
  obtain ⟨r, hr, hread⟩ := h.settled.tables.orderVersions.sound k' latest hk'
  have hpubkey : r.rawJson.pubkey = row.pubkey := by
    rw [← Option.some.inj hrow]
    exact (readOrder_origin hread).2.1.symm
  have hreadable : Sightings.readable X row.pubkey r = true := by
    obtain ⟨v, hv, -⟩ := readOrder_eq_some.mp hread
    rw [Sightings.readable, hpubkey, beq_self_eq_true, hv]
    rfl
  have hseen := (Reachable.attended h).present _ (newest_ne_none_iff.mpr ⟨_, r, hr, hreadable⟩)
  cases hinst : db.instances[row.pubkey]? with
  | none =>
      rw [Sightings.lastSeen, hinst] at hseen
      exact absurd rfl hseen
  | some inst => exact ⟨inst, rfl⟩

/-! ## One block each -/

/-- How many blocks of the comparison count an order. -/
def blocks (profiles : List (Profile F)) (order : Order F) : Nat :=
  profiles.countP fun profile => order.instance' == profile.label

/-- What a metric adds to the orders completed. -/
def completedOf (metric : Metric F) : Option Int :=
  if Stats.endsWith metric.name ".completed" then
    match metric.value with
    | .count n => some n
    | _ => none
  else none

/-- The `completed` figures of a comparison, added up. -/
def completedTotal (metrics : List (Metric F)) : Int := (metrics.filterMap completedOf).sum

theorem completedOf_eq_none {metric : Metric F} (h : ∀ n, metric.value ≠ .count n) :
    completedOf metric = none := by
  rw [completedOf]
  split
  · split
    next n hn => exact absurd hn (h n)
    next => rfl
  · rfl

theorem completedOf_count (scope : String) (n : Nat) :
    completedOf (Stats.count scope "completed" n : Metric F) = some (n : Int) := by
  have hends : Stats.endsWith (Stats.dotted scope "completed") ".completed" = true := by
    rw [Stats.endsWith, Stats.dotted, String.append_assoc, String.toList_append,
      List.isSuffixOf_iff_suffix]
    exact List.suffix_append _ _
  rw [completedOf, Stats.count_name, if_pos hends]
  rfl

/-- What the comparison adds up to is what each block's own orders completed. -/
theorem completedTotal_compareReport (A : Floats F) (profiles : List (Profile F))
    (orders : List (Order F)) (fees : Stats.DevFeeData F) (disputes : Option Stats.DisputeData)
    (window : Window) (now : Int) :
    completedTotal (Stats.compareReport A profiles orders fees disputes window now)
      = ((profiles.map fun profile => (orders.filter fun order =>
          order.instance' == profile.label).countP fun order =>
            order.completed.any window.contains).sum : Nat) := by
  induction profiles with
  | nil => rfl
  | cons profile rest ih =>
      have hsats : ∀ (scope name : String) (value : Option Int),
          completedOf (Stats.satsMetric scope name value : Metric F) = none := by
        intro scope name value
        refine completedOf_eq_none fun n hn => ?_
        cases value <;> cases hn
      have hratio : ∀ (scope name : String) (value : Option F),
          completedOf (Stats.ratioMetric A scope name value) = none := by
        intro scope name value
        refine completedOf_eq_none fun n hn => ?_
        cases value with
        | none => cases hn
        | some x =>
            replace hn : Stats.Value.ofRatio A x = .count n := hn
            rw [Stats.Value.ofRatio] at hn
            split at hn
            · cases hn
            · cases hn
      have htext : ∀ (scope name : String) (value : Option String),
          completedOf (Stats.textMetric scope name value : Metric F) = none := by
        intro scope name value
        refine completedOf_eq_none fun n hn => ?_
        cases value <;> cases hn
      have hsent : ∀ (name : String) (sats : Int),
          completedOf (Metric.observed name (.sats sats) : Metric F) = none := fun name sats =>
        completedOf_eq_none fun n hn => by cases hn
      rw [completedTotal, Stats.compareReport, List.flatMap_cons, List.filterMap_append,
        List.sum_append]
      simp only [List.filterMap_cons, List.filterMap_nil, completedOf_count, hsats, hratio, htext,
        hsent, List.sum_cons, List.sum_nil, List.map_cons, Nat.cast_add]
      rw [← ih]
      rfl

/-- Counts over parts that hold each element once. -/
theorem sum_countP_parts {α β : Type} {xs : List α} {parts : List β} {inside : β → α → Bool}
    (c : α → Bool) (h : ∀ x ∈ xs, (parts.countP fun part => inside part x) = 1) :
    (parts.map fun part => (xs.filter (inside part)).countP c).sum = xs.countP c := by
  induction xs with
  | nil => simp
  | cons x rest ih =>
      have hone : ∀ parts : List β,
          (parts.map fun part => if (inside part x && c x) = true then 1 else 0).sum
            = if c x = true then parts.countP fun part => inside part x else 0 := by
        intro parts
        induction parts with
        | nil => cases c x <;> rfl
        | cons part parts ih =>
            rw [List.map_cons, List.sum_cons, ih, List.countP_cons]
            cases c x <;> cases inside part x <;> simp; omega
      have hsplit : ∀ part, ((x :: rest).filter (inside part)).countP c
          = (rest.filter (inside part)).countP c
            + if (inside part x && c x) = true then 1 else 0 := by
        intro part
        rw [List.filter_cons]
        cases hin : inside part x with
        | true => rw [if_pos rfl, List.countP_cons, Bool.true_and]
        | false => rfl
      simp only [hsplit]
      rw [List.sum_map_add, ih fun y hy => h y (List.mem_cons_of_mem x hy), hone,
        h x List.mem_cons_self, List.countP_cons]

/-! ## Which blocks count an order -/

/-- Rows that name their key come once. -/
theorem rows_nodup {K V : Type} [Ord K] [Std.TransOrd K] [Std.LawfulEqOrd K] {t : Table K V}
    {p : V → Bool} {key : V → K} (h : ∀ k v, t[k]? = some v → key v = k) : (rows t p).Nodup := by
  have hpairs := Std.ExtTreeMap.distinct_keys_toList (t := t.filter fun _ v => p v)
  have hkeyed : ∀ pair ∈ (t.filter fun _ v => p v).toList, key pair.2 = pair.1 := by
    rintro ⟨k, v⟩ hmem
    rw [Std.ExtTreeMap.mem_toList_iff_getElem?_eq_some, Std.ExtTreeMap.getElem?_filter',
      Option.filter_eq_some_iff] at hmem
    exact h k v hmem.1
  rw [rows, List.Nodup, List.pairwise_map]
  refine hpairs.imp_of_mem fun {a b} ha hb hne heq => hne ?_
  rw [← hkeyed a ha, ← hkeyed b hb, heq, Std.ReflOrd.compare_self]

/-- One element that counts is the only one exactly when no other counts. -/
theorem countP_eq_one_iff {α : Type} {xs : List α} {p : α → Bool} (hn : xs.Nodup) {x : α}
    (hx : x ∈ xs) (hp : p x = true) : xs.countP p = 1 ↔ ∀ y ∈ xs, p y = true → y = x := by
  rw [List.countP_eq_length_filter]
  have hmem : x ∈ xs.filter p := List.mem_filter.mpr ⟨hx, hp⟩
  constructor
  · intro hone y hy hpy
    obtain ⟨z, hz⟩ := List.length_eq_one_iff.mp hone
    have hy' : y ∈ xs.filter p := List.mem_filter.mpr ⟨hy, hpy⟩
    rw [hz, List.mem_singleton] at hmem hy'
    exact hy'.trans hmem.symm
  · intro honly
    have hperm : (xs.filter p).Perm [x] := by
      refine (List.perm_ext_iff_of_nodup (hn.filter p) (List.nodup_singleton x)).mpr fun y => ?_
      rw [List.mem_singleton]
      exact ⟨fun hy => honly y (List.mem_filter.mp hy).1 (List.mem_filter.mp hy).2,
        fun hy => hy ▸ hmem⟩
    exact hperm.length_eq

/-- No instance that published an order in scope is alike another in scope. -/
def NoneAlike (scope : Scope) (db : Db F) : Prop :=
  ∀ (k : String) row, db.orders[k]? = some row → scope.applies row.pubkey row.network = true →
    ∀ (q : String) inst, db.instances[q]? = some inst → scope.appliesInstance q = true →
      q ≠ row.pubkey → ¬ Alike row.pubkey (instanceName row.pubkey db) q inst.name

/-- The order's own instance is in the comparison, and it is in no other block
    unless another instance is alike. -/
theorem blocks_eq_one_iff (hpub : ∀ e, X.verify e = true → isHex64 e.pubkey = true)
    (h : Reachable X db) {scope : Scope} {k : String} {row : OrderRow F}
    (hk : db.orders[k]? = some row) (hscope : scope.applies row.pubkey row.network = true)
    {order : Order F} (hread : Reads db row order) :
    blocks (profiles scope db) order = 1
      ↔ ∀ (q : String) inst, db.instances[q]? = some inst → scope.appliesInstance q = true →
        q ≠ row.pubkey → ¬ Alike row.pubkey (instanceName row.pubkey db) q inst.name := by
  have hdrawn := (Reachable.attended h).drawn
  have hhex : ∀ (q : String) inst, db.instances[q]? = some inst → isHex64 q = true := by
    intro q inst hq
    obtain ⟨-, e, he, rfl⟩ := hdrawn q inst hq
    exact hpub e he
  obtain ⟨own, hown⟩ := publisher_row h hk
  have hname : instanceName row.pubkey db = own.name := by
    rw [instanceName, hown]
    rfl
  -- The blocks are counted over the rows in scope, one to an instance.
  let listed := rowsBy (ascAsc Instance.firstSeenAt Instance.pubkey) db.instances fun inst =>
    scope.appliesInstance inst.pubkey
  have hlisted : ∀ inst, inst ∈ listed ↔ (∃ q : String, db.instances[q]? = some inst)
      ∧ scope.appliesInstance inst.pubkey = true := fun inst => mem_rowsBy
  have hnodup : listed.Nodup :=
    (List.perm_insertionSort _ _).nodup_iff.mpr
      (rows_nodup fun q inst hq => (hdrawn q inst hq).1)
  have happlies : scope.appliesInstance own.pubkey = true := by
    rw [(hdrawn _ _ hown).1]
    rw [Scope.applies, Bool.and_eq_true] at hscope
    exact hscope.1
  have hmem : own ∈ listed := (hlisted own).mpr ⟨⟨_, hown⟩, happlies⟩
  have hlabel : ∀ (q : String) inst, db.instances[q]? = some inst →
      ((order.instance' == (profileOf db inst).label) = true
        ↔ instanceLabel row.pubkey own.name = instanceLabel q inst.name) := by
    intro q inst hq
    rw [beq_iff_eq, hread.label, hname, profileOf, (hdrawn q inst hq).1]
  rw [blocks, profiles, List.countP_map, hname]
  refine (countP_eq_one_iff hnodup hmem ((hlabel _ own hown).mpr rfl)).trans ?_
  constructor
  · intro honly q inst hq hin hne halike
    have hsame : inst = own := by
      refine honly inst ((hlisted inst).mpr ⟨⟨q, hq⟩, (hdrawn q inst hq).1 ▸ hin⟩) ?_
      exact (hlabel q inst hq).mpr
        ((instanceLabel_eq_iff (hhex _ own hown) (hhex q inst hq) _ _).mpr (Or.inr halike))
    rw [hsame] at hq
    exact hne ((hdrawn q own hq).1.symm.trans (hdrawn _ own hown).1)
  · intro hnone inst hinst hsame
    obtain ⟨⟨q, hq⟩, hin⟩ := (hlisted inst).mp hinst
    have hq' := (hdrawn q inst hq).1
    by_cases hne : q = row.pubkey
    · subst hne
      exact Option.some.inj (hq.symm.trans hown)
    · rcases (instanceLabel_eq_iff (hhex _ own hown) (hhex q inst hq) _ _).mp
        ((hlabel q inst hq).mp hsame) with ⟨-, -, heq⟩ | halike
      · exact absurd heq.symm hne
      · exact absurd halike (hnone q inst hq (hq' ▸ hin) hne)

/-- **LABELS KEEP TWO INSTANCES APART** unless they chose one name and their keys start
    alike; and a comparison counts every order once, and adds up to the network,
    exactly when no instance that published an order is alike another. -/
theorem labels_apart_iff :
    (∀ p q : String, isHex64 p = true → isHex64 q = true → p ≠ q → ∀ name name',
        instanceLabel p name ≠ instanceLabel q name' ↔ ¬ Alike p name q name')
      ∧ ∀ (X : Externals F), (∀ e, X.verify e = true → isHex64 e.pubkey = true) →
        ∀ db : Db F, Reachable X db → ∀ scope : Scope, ∃ all, orders scope db = .ok all
          ∧ ∀ (A : Floats F) (fees : Stats.DevFeeData F) (disputes : Option Stats.DisputeData)
            (window : Window) (now : Int),
            ((∀ order ∈ all, blocks (profiles scope db) order = 1)
              ∧ completedTotal
                  (Stats.compareReport A (profiles scope db) all fees disputes window now)
                = ((Stats.summarise A all window now).completed : Int))
            ↔ NoneAlike scope db := by
  refine ⟨fun p q hp hq hne name name' => not_congr ?_, fun X hpub db h scope => ?_⟩
  · rw [instanceLabel_eq_iff hp hq]
    exact ⟨fun hsame => hsame.resolve_left fun hbare => hne hbare.2.2, Or.inr⟩
  · obtain ⟨all, hall, hfrom, hto⟩ := orders_spec h.settled scope
    refine ⟨all, hall, fun A fees disputes window now => ⟨fun hboth => ?_, fun hnone => ?_⟩⟩
    · intro k row hk hscope
      obtain ⟨order, horder, hread⟩ := hto k row hk hscope
      exact (blocks_eq_one_iff hpub h hk hscope hread).mp (hboth.1 order horder)
    · have hone : ∀ order ∈ all, blocks (profiles scope db) order = 1 := by
        intro order horder
        obtain ⟨k, row, hk, hscope, hread⟩ := hfrom order horder
        exact (blocks_eq_one_iff hpub h hk hscope hread).mpr (hnone k row hk hscope)
      refine ⟨hone, ?_⟩
      rw [completedTotal_compareReport, sum_countP_parts _ hone]
      rfl

/-! ## Two keys that start alike -/

/-- The archive of one order, loaded and compared. -/
theorem labels_apart_once :
    ∃ all, orders everything tradedOnce = .ok all
      ∧ ∀ (A : Floats Int) (fees : Stats.DevFeeData Int) (disputes : Option Stats.DisputeData)
        (window : Window) (now : Int),
        ((∀ order ∈ all, blocks (profiles everything tradedOnce) order = 1)
          ∧ completedTotal (Stats.compareReport A (profiles everything tradedOnce) all fees
              disputes window now)
            = ((Stats.summarise A all window now).completed : Int))
        ↔ NoneAlike everything tradedOnce := by
  refine labels_apart_iff.2 tagged (fun e he => ?_) tradedOnce reachable_tradedOnce everything
  have hknown : e ∈ [taggedOrder] := of_decide_eq_true he
  rw [List.mem_singleton.mp hknown]
  decide +kernel

/-- A key whose first eight digits are those of `alice`. -/
def lookalike : String := "82fa8cb900000000000000000000000000000000000000000000000000000000"

/-- **TWO INSTANCES, ONE LABEL**: each chose the name, and their keys start alike. -/
theorem lookalike_label :
    isHex64 Convergence.alice = true ∧ isHex64 lookalike = true
      ∧ Convergence.alice ≠ lookalike
      ∧ instanceLabel Convergence.alice (some "Mostro")
        = instanceLabel lookalike (some "Mostro") := by
  decide +kernel

end Load
