import Bestiario.Steady

/-! # Orders in which the bestiary shows

    The other half: of a set that is not steady two orders can be given that
    leave different rows, or one that leaves a name that is not the newest.

    * an event that needs vouching for, received before and after it is;
    * the newest of a name received first, and received only after what makes
      each of them redundant (`Silenced`);
    * two names of one second, each received last.

    An order here is a list of events; which relay delivers them and when makes
    no difference to the bestiary. -/

namespace Bestiary

open Keyed Wire Parse Repo Pipeline Derived

variable {F : Type} {X : Externals F} {P : Policy} {S : Finset Event} {db : Db F}

/-! ## Delivering a list -/

/-- One delivery. -/
def call (e : Event) : Call := ⟨e, "wss://a", 0⟩

/-- Events delivered one after another. -/
def deliver (X : Externals F) (P : Policy) (events : List Event) (db : Db F) : Db F :=
  ingestAll X P (events.map call) db

theorem deliver_append (before after : List Event) (db : Db F) :
    deliver X P (before ++ after) db = deliver X P after (deliver X P before db) := by
  rw [deliver, List.map_append, ingestAll, List.foldl_append]
  rfl

theorem receives_map {events : List Event} (h : ∀ e, e ∈ S ↔ e ∈ events) :
    Receives S (events.map call) := by
  intro e
  rw [h e]
  constructor
  · intro he
    exact ⟨call e, List.mem_map_of_mem he, rfl⟩
  · rintro ⟨c, hc, rfl⟩
    obtain ⟨f, hf, rfl⟩ := List.mem_map.mp hc
    exact hf

theorem deliver_cons (e : Event) (rest : List Event) (db : Db F) :
    deliver X P (e :: rest) db = deliver X P rest (deliver X P [e] db) := rfl

theorem archive_deliver_mono {events : List Event} {e : Event} (h : e ∈ archive db) :
    e ∈ archive (deliver X P events db) := by
  induction events generalizing db with
  | nil => exact h
  | cons f rest ih => exact ih (archive_mono P (call f) h)

theorem archive_deliver_cases {events : List Event} {e : Event}
    (h : e ∈ archive (deliver X P events db)) : e ∈ archive db ∨ e ∈ events := by
  induction events generalizing db with
  | nil => exact .inl h
  | cons f rest ih =>
      rcases ih h with hold | hnew
      · rcases archive_cases hold with hold | rfl
        · exact .inl hold
        · exact .inr List.mem_cons_self
      · exact .inr (List.mem_cons_of_mem f hnew)

/-- Into an empty database nothing is archived but what is delivered. -/
theorem mem_of_delivered {events : List Event} {e : Event}
    (h : e ∈ archive (deliver X P events (Db.empty : Db F))) : e ∈ events := by
  rcases archive_deliver_cases h with ⟨_, _, hk, -⟩ | hmem
  · cases hk
  · exact hmem

theorem stored_deliver {events : List Event} (h : ∀ a ∈ archive db, a ∈ S)
    (hevents : ∀ e ∈ events, e ∈ S) : ∀ a ∈ archive (deliver X P events db), a ∈ S := by
  intro a ha
  rcases archive_deliver_cases ha with hold | hmem
  · exact h a hold
  · exact hevents a hmem

theorem settled_deliver {events : List Event} (h : Settled X db) :
    Settled X (deliver X P events db) :=
  ingestAll_settled _ h

theorem row_deliver {events : List Event} {pubkey : String} {row : Instance}
    (h : db.instances[pubkey]? = some row) :
    ∃ row', (deliver X P events db).instances[pubkey]? = some row'
      ∧ row'.firstSeenAt ≤ row.firstSeenAt ∧ row.lastSeenAt ≤ row'.lastSeenAt := by
  induction events generalizing db row with
  | nil => exact ⟨row, h, le_refl _, le_refl _⟩
  | cons e rest ih =>
      obtain ⟨row', hrow', hfirst, hlast⟩ := row_ingest (X := X) (P := P) (c := call e) h
      obtain ⟨row'', hrow'', hfirst', hlast'⟩ := ih hrow'
      exact ⟨row'', hrow'', hfirst'.trans hfirst, hlast.trans hlast'⟩

theorem told_deliver (hadm : ∀ e ∈ S, admission X P e = none) {done : Event → Prop}
    {events : List Event} (hmem : ∀ e ∈ events, e ∈ S) (h : Told X P S done db) :
    Told X P S (fun e => done e ∨ e ∈ events) (deliver X P events db) := by
  have hcalls : ∀ c ∈ events.map call, c.event ∈ S := by
    intro c hc
    obtain ⟨e, he, rfl⟩ := List.mem_map.mp hc
    exact hmem e he
  have hrun := told_ingestAll hadm hcalls h
  have hsame : (fun e => done e ∨ ∃ c ∈ events.map call, c.event = e)
      = fun e => done e ∨ e ∈ events := by
    funext e
    refine congrArg _ (propext ⟨?_, fun he => ⟨call e, List.mem_map_of_mem he, rfl⟩⟩)
    rintro ⟨c, hc, rfl⟩
    obtain ⟨f, hf, rfl⟩ := List.mem_map.mp hc
    exact hf
  rw [hsame] at hrun
  exact hrun

/-! ## What one delivery does to the archive -/

/-- A redundant event is not archived. -/
theorem events_of_redundant {c : Call} {parsed : Parsed F} (hp : parse X c.event = .ok parsed)
    (hr : Heartbeats.isRedundant c.event (parsedHeartbeat parsed) db = true) :
    (ingest X P c db).2.events = db.events := by
  rw [ingest_events, if_neg]
  rw [archives, kept, hp]
  simp [hr]

theorem archive_of_events {db' : Db F} (h : db'.events = db.events) :
    archive db' = archive db := by
  rw [archive, archive, h]

/-- One that is let in, read and neither redundant nor there already is. -/
theorem archived_of_new {e : Event} {parsed : Parsed F} (hadmitted : Admitted X P e db)
    (hp : parse X e = .ok parsed)
    (hr : Heartbeats.isRedundant e (parsedHeartbeat parsed) db = false)
    (hk : db.events[e.id]? = none) :
    (ingest X P (call e) db).2
      = advance (call e) (persist X e parsed
        { db with events := db.events.insertIfNew e.id (call e).record }) := by
  obtain ⟨outcome, out, heq, hcases⟩ := ingest_cases X P (call e) db
  rw [heq]
  cases hcases with
  | turnedAway hno => exact absurd hadmitted hno
  | unread _ hp' => exact nomatch hp'.symm.trans hp
  | redundant _ hp' hr' =>
      cases hp'.symm.trans hp
      exact nomatch hr.symm.trans hr'
  | duplicate _ _ _ hk' => exact nomatch hk.symm.trans hk'
  | stored _ hp' _ _ =>
      cases hp'.symm.trans hp
      rfl

theorem mem_archive_of_new {e : Event} {parsed : Parsed F} (hadmitted : Admitted X P e db)
    (hp : parse X e = .ok parsed)
    (hr : Heartbeats.isRedundant e (parsedHeartbeat parsed) db = false)
    (hk : db.events[e.id]? = none) : e ∈ archive (ingest X P (call e) db).2 := by
  refine ⟨e.id, (call e).record, ?_, rfl⟩
  rw [archived_of_new hadmitted hp hr hk]
  show (persist X e parsed _).events[e.id]? = _
  rw [(persisted hp _).events]
  exact archived_lookup (call e) hk

/-- Whoever has an event with a `y` tag archived is vouched for. -/
theorem vouchedFor_of_archived (h : Settled X db) {e f : Event}
    (hf : f ∈ voices X (archive db) e.pubkey)
    (htagged : untaggedKinds.contains f.kind = false) : vouchedFor P e db = none := by
  have hproven := Admission.isPlatformProven_iff.mpr (hasRow_of_archived h hf htagged)
  rw [vouchedFor, hproven, Bool.or_true, if_pos rfl, ite_self]

/-- Nothing vouches for anybody in an empty database. -/
theorem deliver_unsure {events : List Event} (hadm : ∀ e ∈ events, ¬ Sure P e) :
    deliver X P events (Db.empty : Db F) = Db.empty := by
  induction events with
  | nil => rfl
  | cons e rest ih =>
      have haway : ingest X P (call e) (Db.empty : Db F) = ((ingest X P (call e) Db.empty).1,
          Db.empty) := by
        obtain ⟨outcome, out, heq, hcases⟩ := ingest_cases X P (call e) (Db.empty : Db F)
        have hout : ¬ Admitted X P e (Db.empty : Db F) := by
          intro hadmitted
          obtain ⟨f, ⟨⟨k, r, hk, -⟩, -⟩, -⟩ := archived_of_admitted settled_empty hadmitted
            (hadm e List.mem_cons_self)
          exact nomatch hk
        rw [heq]
        cases hcases with
        | turnedAway _ => rfl
        | unread hin _ => exact absurd hin hout
        | redundant hin _ _ => exact absurd hin hout
        | duplicate hin _ _ _ => exact absurd hin hout
        | stored hin _ _ _ => exact absurd hin hout
      show deliver X P rest (ingest X P (call e) Db.empty).2 = Db.empty
      rw [haway]
      exact ih fun f hf => hadm f (List.mem_cons_of_mem e hf)

/-! ## Heard before anything else -/

/-- A publisher that is known but not listed is known by an event with a `y` tag. -/
theorem exists_tagged {pubkey : String} {e : Event} (hknown : Known X P S pubkey)
    (he : e ∈ voices X S pubkey) (hsure : ¬ Sure P e) :
    ∃ q ∈ voices X S pubkey, untaggedKinds.contains q.kind = false := by
  obtain ⟨q, hq, htagged | hlisted⟩ := hknown
  · exact ⟨q, hq, htagged⟩
  · rw [hq.2.1, ← he.2.1] at hlisted
    exact absurd (.inr hlisted) hsure

section First

variable (hadm : ∀ e ∈ S, admission X P e = none)

include hadm

/-- A sure event delivered first is archived. -/
theorem archived_of_sure {e : Event} (he : e ∈ S) (hread : ∃ parsed, parse X e = .ok parsed)
    (hsure : Sure P e) : e ∈ archive (deliver X P [e] (Db.empty : Db F)) := by
  obtain ⟨parsed, hp⟩ := hread
  refine mem_archive_of_new ⟨hadm e he, vouchedFor_of_sure hsure _⟩ hp ?_ rfl
  by_contra hr
  rw [Bool.not_eq_false] at hr
  rcases redundant_cases settled_empty hp hr with ⟨-, f, ⟨_, _, hk, -⟩, -⟩ |
    ⟨_, -, f, ⟨_, _, hk, -⟩, -⟩
  · exact nomatch hk
  · exact nomatch hk

/-- **HEARD FIRST**: every event of a known publisher is archived in some order, after
    no more than the one event that vouches for it. -/
theorem exists_heard {pubkey : String} {e : Event} (hknown : Known X P S pubkey)
    (he : e ∈ voices X S pubkey) :
    ∃ events, (∀ f ∈ events, f ∈ S) ∧ e ∈ archive (deliver X P events (Db.empty : Db F)) := by
  by_cases hsure : Sure P e
  · exact ⟨[e], fun f hf => List.mem_singleton.mp hf ▸ he.1,
      archived_of_sure hadm he.1 he.2.2 hsure⟩
  · obtain ⟨q, hq, htagged⟩ := exists_tagged hknown he hsure
    have huntagged : untaggedKinds.contains e.kind = true := by
      rw [Sure, not_or, Bool.not_eq_false] at hsure
      exact hsure.1
    refine ⟨[q, e], ?_, ?_⟩
    · rintro f hf
      rcases List.mem_pair.mp hf with rfl | rfl
      · exact hq.1
      · exact he.1
    have harchived : q ∈ archive (deliver X P [q] (Db.empty : Db F)) :=
      archived_of_sure hadm hq.1 hq.2.2 (.inl htagged)
    have hset : Settled X (deliver X P [q] (Db.empty : Db F)) := settled_deliver settled_empty
    -- Nothing but `q` is there, and `q` is of another kind.
    have honly : ∀ f ∈ archive (deliver X P [q] (Db.empty : Db F)), f.kind ≠ e.kind := by
      intro f hf hkind
      rw [List.mem_singleton.mp (mem_of_delivered hf)] at hkind
      rw [hkind, huntagged] at htagged
      cases htagged
    obtain ⟨parsed, hp⟩ := he.2.2
    have hvouched : vouchedFor P e (deliver X P [q] (Db.empty : Db F)) = none := by
      refine vouchedFor_of_archived hset (f := q) ⟨harchived, ?_, hq.2.2⟩ htagged
      rw [hq.2.1, he.2.1]
    show e ∈ archive (ingest X P (call e) (deliver X P [q] Db.empty)).2
    refine mem_archive_of_new ⟨hadm e he.1, hvouched⟩ hp ?_ ?_
    · by_contra hr
      rw [Bool.not_eq_false] at hr
      rcases redundant_cases hset hp hr with ⟨-, f, hf, hrepeats, -⟩ | ⟨s, hs, f, hf, r, hfr, -⟩
      · exact honly f hf hrepeats.kind
      · refine honly f hf ?_
        rw [readRates_kind hs, readRates_kind hfr]
    · cases hk : (deliver X P [q] (Db.empty : Db F)).events[e.id]? with
      | none => rfl
      | some r =>
          have hin : r.rawJson ∈ archive (deliver X P [q] (Db.empty : Db F)) := ⟨_, r, hk, rfl⟩
          have hmem : r.rawJson ∈ S := List.mem_singleton.mp (mem_of_delivered hin) ▸ hq.1
          exact absurd (same_of_id (hadm _ he.1) (hadm _ hmem)
            (hset.tables.rawJson_id hk)).2.1 (honly _ hin)

/-! ## Events that need vouching for -/

/-- Of an order-free set, who needs vouching for is seen between those who do not:
    received before everybody else they leave no trace. -/
theorem framed_of_orderFree (h : OrderFree X P S) {pubkey : String}
    (hknown : Known X P S pubkey) {e : Event} (he : e ∈ voices X S pubkey) :
    ∃ f ∈ voices X S pubkey, ∃ g ∈ voices X S pubkey,
      Sure P f ∧ Sure P g ∧ f.at ≤ e.at ∧ e.at ≤ g.at := by
  classical
  obtain ⟨events, hsub, hheard⟩ := exists_heard hadm hknown he
  have htold := told_deliver hadm hsub (told_empty (X := X) (P := P) (S := S))
  obtain ⟨row, hrow, hlo, hhi⟩ := htold.framed pubkey e he (.inr hheard)
  obtain ⟨row', hrow', hfirst, hlast⟩ := row_deliver hrow
  rw [← deliver_append] at hrow'
  -- The same set, those who need vouching for first: only the sure ones are taken.
  have hsame := (h.same ((events ++ S.toList).map call)
    (((S.filter fun f => ¬ Sure P f).toList ++ (S.filter fun f => Sure P f).toList).map call)
    (receives_map fun f => by
      rw [List.mem_append, Finset.mem_toList]
      exact ⟨.inr, fun hf => hf.elim (hsub f) id⟩)
    (receives_map fun f => by
      rw [List.mem_append, Finset.mem_toList, Finset.mem_toList, Finset.mem_filter,
        Finset.mem_filter, ← and_or_left]
      exact (and_iff_left (em' _)).symm)).1
  have hsure : deliver X P ((S.filter fun f => ¬ Sure P f).toList
      ++ (S.filter fun f => Sure P f).toList) (Db.empty : Db F)
      = deliver X P (S.filter fun f => Sure P f).toList Db.empty := by
    rw [deliver_append, deliver_unsure]
    intro f hf
    exact (Finset.mem_filter.mp (Finset.mem_toList.mp hf)).2
  have htold' := told_deliver (S := S.filter fun f => Sure P f)
    (fun f hf => hadm f (Finset.mem_filter.mp hf).1)
    (fun f hf => Finset.mem_toList.mp hf) (told_empty (F := F) (X := X) (P := P))
  rw [← hsure] at htold'
  have hfinal : (deliver X P ((S.filter fun f => ¬ Sure P f).toList
      ++ (S.filter fun f => Sure P f).toList) (Db.empty : Db F)).instances[pubkey]?
        = some row' := by
    rw [← hrow']
    exact congrArg (fun t => t[pubkey]?) hsame.symm
  obtain ⟨-, -, ⟨f, ⟨hf, hfrest⟩, hfat⟩, ⟨g, ⟨hg, hgrest⟩, hgat⟩⟩ :=
    htold'.drawn pubkey row' hfinal
  obtain ⟨hfS, hfsure⟩ := Finset.mem_filter.mp (Finset.mem_coe.mp hf)
  obtain ⟨hgS, hgsure⟩ := Finset.mem_filter.mp (Finset.mem_coe.mp hg)
  refine ⟨f, ⟨hfS, hfrest⟩, g, ⟨hgS, hgrest⟩, hfsure, hgsure, ?_, ?_⟩
  · rw [hfat]
    exact hfirst.trans hlo
  · rw [hgat]
    exact hhi.trans hlast

end First

/-! ## Silencing a name -/

/-- None of these is archived. -/
def Silenced (G : Set Event) (db : Db F) : Prop := ∀ e ∈ G, e ∉ archive db

theorem silenced_deliver {G : Set Event} {events : List Event} (h : Silenced G db)
    (hout : ∀ e ∈ events, e ∉ G) : Silenced G (deliver X P events db) := by
  intro e he hin
  rcases archive_deliver_cases hin with hold | hmem
  · exact h e he hold
  · exact hout e hmem he

/-- In order of the redundancy query: newest first, and of one second the lowest id. -/
def rank (e : Event) : Intᵒᵈ ×ₗ String := toLex (OrderDual.toDual e.at, e.id)

theorem rank_record (h : Settled X db) {k : String} {r : EventRecord}
    (hk : db.events[k]? = some r) :
    descAsc EventRecord.createdAt EventRecord.id r = rank r.rawJson := by
  obtain ⟨-, hnew⟩ := h.tables.keyed k r hk
  rw [descAsc, rank]
  rw [hnew]
  rfl

theorem at_le_of_rank {e f : Event} (h : rank e ≤ rank f) : f.at ≤ e.at := by
  rw [rank, rank, Prod.Lex.toLex_le_toLex] at h
  rcases h with hlt | ⟨heq, -⟩
  · exact (OrderDual.toDual_lt_toDual.mp hlt).le
  · exact (OrderDual.toDual_inj.mp heq).ge

/-- What `previous` looks for: a version of the address, no later, and not `e`. -/
theorem previous_selects (h : Settled X db) {e : Event} {k : String} {r : EventRecord}
    (hk : db.events[k]? = some r) :
    (r.pubkey == e.pubkey && r.kind == e.kind && r.dTag == Wire.dTag e
        && decide (r.createdAt ≤ e.at) && r.id != e.id) = true
      ↔ r.rawJson.pubkey = e.pubkey ∧ r.rawJson.kind = e.kind
        ∧ Wire.dTag r.rawJson = Wire.dTag e ∧ r.rawJson.at ≤ e.at ∧ r.rawJson.id ≠ e.id := by
  obtain ⟨-, hnew⟩ := h.tables.keyed k r hk
  rw [hnew]
  simp only [Bool.and_eq_true, beq_iff_eq, decide_eq_true_iff, bne_iff_ne, and_assoc]
  exact Iff.rfl

/-- A version that `e` repeats, ahead of every other one of the address, makes `e`
    redundant. -/
theorem redundant_of_foremost (h : Settled X db) {e v : Event} {parsed : Parsed F}
    (hp : parse X e = .ok parsed) (hkind : e.kind ∈ announcing) (hv : v ∈ archive db)
    (hrepeats : Repeats v e) (hlt : v.at < e.at) (hid : v.id ≠ e.id)
    (hforemost : ∀ w ∈ archive db, w.pubkey = e.pubkey → w.kind = e.kind →
      Wire.dTag w = Wire.dTag e → w.at ≤ e.at → w.id ≠ e.id → rank v ≤ rank w) :
    Heartbeats.isRedundant e (parsedHeartbeat parsed) db = true := by
  obtain ⟨k, r, hk, rfl⟩ := hv
  have hsel := (previous_selects h (e := e) hk).mpr
    ⟨hrepeats.pubkey, hrepeats.kind, hrepeats.dTag, hlt.le, hid⟩
  have hprevious : Heartbeats.previous e db = some r := by
    cases hfirst : Heartbeats.previous e db with
    | none => exact nomatch hsel.symm.trans ((first_eq_none_iff _).mp hfirst k r hk)
    | some w =>
        obtain ⟨⟨a, ha⟩, hw⟩ := first_mem hfirst
        obtain ⟨hwp, hwk, hwd, hwt, hwid⟩ := (previous_selects h ha).mp hw
        have hle := first_le hfirst hk hsel
        have hge := hforemost w.rawJson ⟨a, w, ha, rfl⟩ hwp hwk hwd hwt hwid
        rw [rank_record h ha, rank_record h hk] at hle
        have hsame : w.rawJson.id = r.rawJson.id :=
          (Prod.mk.inj (toLex_inj.mp (le_antisymm hle hge))).2
        have hkey : a = k := by
          rw [← h.tables.rawJson_id ha, ← h.tables.rawJson_id hk, hsame]
        subst hkey
        rw [ha] at hk
        exact hk
  rcases heartbeat_of_parsed hp with ⟨-, hno, -⟩ | ⟨hbeat, -⟩ | ⟨s, hs, -⟩
  · exact absurd hkind hno
  · rw [hbeat, Heartbeats.isRedundant, hprevious]
    exact Bool.and_eq_true_iff.mpr ⟨beq_iff_eq.mpr hrepeats.content, hrepeats.tags⟩
  · rw [readRates_kind hs] at hkind
    exact absurd hkind (by decide)

/-- Why an announcement is redundant: it repeats the foremost of what came before. -/
theorem foremost_of_redundant (h : Settled X db) {e : Event} {parsed : Parsed F}
    (hp : parse X e = .ok parsed) (hkind : e.kind ∈ announcing)
    (hr : Heartbeats.isRedundant e (parsedHeartbeat parsed) db = true) :
    ∃ v ∈ archive db, Repeats v e ∧ v.at ≤ e.at
      ∧ ∀ w ∈ archive db, w.pubkey = e.pubkey → w.kind = e.kind →
        Wire.dTag w = Wire.dTag e → w.at ≤ e.at → w.id ≠ e.id → rank v ≤ rank w := by
  rcases heartbeat_of_parsed hp with ⟨-, hno, -⟩ | ⟨hbeat, -⟩ | ⟨s, hs, -⟩
  · exact absurd hkind hno
  · rw [hbeat, Heartbeats.isRedundant] at hr
    split at hr
    next r hprevious =>
      obtain ⟨⟨k, hk⟩, hsel⟩ := first_mem hprevious
      obtain ⟨hpub, hkind', -, hat, -⟩ := (previous_selects h hk).mp hsel
      obtain ⟨hcontent, htags⟩ := Bool.and_eq_true_iff.mp hr
      refine ⟨r.rawJson, ⟨k, r, hk, rfl⟩, ⟨hpub, hkind', beq_iff_eq.mp hcontent, htags⟩, hat, ?_⟩
      rintro w ⟨a, u, ha, rfl⟩ hwp hwk hwd hwt hwid
      have hle := first_le hprevious ha
        ((previous_selects h ha).mpr ⟨hwp, hwk, hwd, hwt, hwid⟩)
      rw [rank_record h ha, rank_record h hk] at hle
      exact hle
    next => cases hr
  · rw [readRates_kind hs] at hkind
    exact absurd hkind (by decide)

theorem Repeats.trans {e f g : Event} (h : Repeats e f) (h' : Repeats f g) : Repeats e g where
  pubkey := h.pubkey.trans h'.pubkey
  kind := h.kind.trans h'.kind
  content := h.content.trans h'.content
  tags := beq_iff_eq.mpr ((eq_of_beq h.tags).trans (eq_of_beq h'.tags))

theorem repeats_of_id {e f : Event} (he : admission X P e = none)
    (hf : admission X P f = none) (hid : f.id = e.id) : Repeats f e := by
  have hbody := X.verify_body f e (verify_of_admission hf) (verify_of_admission he) hid
  simp only [Event.body, Prod.mk.injEq] at hbody
  obtain ⟨hpubkey, -, hkind, htags, hcontent⟩ := hbody
  refine ⟨hpubkey, hkind, hcontent, ?_⟩
  rw [Heartbeats.sameTags, htags]
  exact beq_self_eq_true _

/-- A sure event that is read is archived, or was redundant and left no trace. -/
theorem archived_or_redundant {e : Event} {parsed : Parsed F} (he : admission X P e = none)
    (hsure : Sure P e) (hp : parse X e = .ok parsed) :
    (∃ r, (deliver X P [e] db).events[e.id]? = some r)
      ∨ db.events[e.id]? = none ∧ Heartbeats.isRedundant e (parsedHeartbeat parsed) db = true
        ∧ (deliver X P [e] db).events = db.events := by
  have hadmitted : Admitted X P e db := ⟨he, vouchedFor_of_sure hsure db⟩
  cases hk : db.events[e.id]? with
  | some r => exact .inl ⟨r, ingest_events_mono P (call e) hk⟩
  | none =>
      cases hr : Heartbeats.isRedundant e (parsedHeartbeat parsed) db with
      | true => exact .inr ⟨rfl, rfl, events_of_redundant (c := call e) hp hr⟩
      | false =>
          refine .inl ⟨(call e).record, ?_⟩
          show (ingest X P (call e) db).2.events[e.id]? = _
          rw [archived_of_new hadmitted hp hr hk]
          show (persist X e parsed _).events[e.id]? = _
          rw [(persisted hp _).events]
          exact archived_lookup (call e) hk

section Silence

variable (hadm : ∀ e ∈ S, admission X P e = none)

include hadm

/-- **AN OLDER VERSION SILENCES A NEWER ONE**: delivered ahead of it, and ahead of
    whatever else of the address is archived. -/
theorem redundant_after {t g : Event} {parsed : Parsed F} (h : Settled X db)
    (hstored : ∀ a ∈ archive db, a ∈ S) (ht : t ∈ S) (hg : g ∈ S) (hsure : Sure P t)
    (hp : parse X g = .ok parsed) (hkind : g.kind ∈ announcing) (hrepeats : Repeats t g)
    (hlt : t.at < g.at)
    (hahead : ∀ a ∈ archive db, a.pubkey = g.pubkey → a.kind = g.kind → rank t ≤ rank a) :
    Heartbeats.isRedundant g (parsedHeartbeat parsed) (deliver X P [t] db) = true := by
  have hset : Settled X (deliver X P [t] db) := settled_deliver h
  have htkind : t.kind ∈ announcing := hrepeats.kind ▸ hkind
  obtain ⟨tparsed, htp⟩ := hrepeats.readable hkind ⟨parsed, hp⟩
  have hapart : ∀ v : Event, v ∈ S → v.at < g.at → v.id ≠ g.id := by
    intro v hv hvlt hid
    have hat := (same_of_id (hadm g hg) (hadm v hv) hid).2.2.1
    omega
  rcases archived_or_redundant (hadm t ht) hsure htp with ⟨r, hk⟩ | ⟨hnew, hr, hsame⟩
  · -- `t` is archived now, itself or another copy of it.
    have hin : r.rawJson ∈ archive (deliver X P [t] db) := ⟨_, r, hk, rfl⟩
    have hS : ∀ a ∈ archive (deliver X P [t] db), a ∈ S :=
      stored_deliver hstored (List.forall_mem_singleton.mpr ht)
    have hid := hset.tables.rawJson_id hk
    obtain ⟨-, -, hat, -⟩ := same_of_id (hadm t ht) (hadm _ (hS _ hin)) hid
    have hrank : rank r.rawJson = rank t := by rw [rank, rank, hat, hid]
    refine redundant_of_foremost hset hp hkind hin
      ((repeats_of_id (hadm t ht) (hadm _ (hS _ hin)) hid).trans hrepeats) (hat ▸ hlt)
      (hapart _ (hS _ hin) (hat ▸ hlt)) fun w hw hwp hwk _ _ _ => ?_
    rw [hrank]
    rcases archive_deliver_cases hw with hold | hmem
    · exact hahead w hold hwp hwk
    · rw [List.mem_singleton.mp hmem]
  · -- `t` itself repeats something, which `g` then repeats too.
    obtain ⟨v, hv, hvt, hvle, hforemost⟩ := foremost_of_redundant h htp htkind hr
    have harchive := archive_of_events hsame
    refine redundant_of_foremost hset hp hkind (harchive ▸ hv) (hvt.trans hrepeats)
      (lt_of_le_of_lt hvle hlt) (hapart v (hstored v hv) (lt_of_le_of_lt hvle hlt))
      fun w hw hwp hwk hwd _ _ => ?_
    rw [harchive] at hw
    refine hforemost w hw (hwp.trans hrepeats.pubkey.symm) (hwk.trans hrepeats.kind.symm)
      (hwd.trans hrepeats.dTag.symm) (at_le_of_rank (hahead w hw hwp hwk)) ?_
    rintro hid
    obtain ⟨k, r, hr, rfl⟩ := hw
    have hkey : k = t.id := (h.tables.rawJson_id hr).symm.trans hid
    rw [hkey] at hr
    exact nomatch hnew.symm.trans hr

/-- Announcements received each after an older version of itself, the versions
    themselves oldest first: none of them is archived. -/
theorem silenced_chain {G : Set Event} (pubkey : String) (older : Event → Event)
    {events : List Event} (h : Settled X db) (hstored : ∀ a ∈ archive db, a ∈ S)
    (hG : Silenced G db)
    (hevents : ∀ g ∈ events, g ∈ voices X S pubkey ∧ g.kind ∈ announcing ∧ Sure P g
      ∧ older g ∈ S ∧ older g ∉ G ∧ Repeats (older g) g ∧ (older g).at < g.at)
    (hsorted : events.Pairwise fun a b => rank (older b) ≤ rank (older a))
    (hahead : ∀ a ∈ archive db, a.pubkey = pubkey → a.kind ∈ announcing →
      ∀ g ∈ events, rank (older g) ≤ rank a) :
    Silenced G (deliver X P (events.flatMap fun g => [older g, g]) db) := by
  induction events generalizing db with
  | nil => exact hG
  | cons g rest ih =>
      obtain ⟨hg, hkind, hsure, hold, hout, hrepeats, hlt⟩ := hevents g List.mem_cons_self
      obtain ⟨parsed, hp⟩ := hg.2.2
      have hsure' : Sure P (older g) := by
        rw [Sure, hrepeats.kind, hrepeats.pubkey]
        exact hsure
      have hredundant := redundant_after hadm h hstored hold hg.1 hsure' hp hkind hrepeats hlt
        fun a ha hap hak => hahead a ha (hap.trans hg.2.1) (hak ▸ hkind) g List.mem_cons_self
      have hevents' : (deliver X P [older g, g] db).events = (deliver X P [older g] db).events :=
        events_of_redundant (c := call g) hp hredundant
      have harchive : ∀ a ∈ archive (deliver X P [older g, g] db),
          a ∈ archive db ∨ a = older g := by
        intro a ha
        rw [archive_of_events hevents'] at ha
        exact (archive_deliver_cases ha).imp_right List.mem_singleton.mp
      rw [List.flatMap_cons, deliver_append]
      refine ih (settled_deliver h) (fun a ha => ?_) (fun a ha hin => ?_)
        (fun f hf => hevents f (List.mem_cons_of_mem g hf)) (List.pairwise_cons.mp hsorted).2
        fun a ha hap hak f hf => ?_
      · rcases harchive a ha with hbefore | rfl
        · exact hstored a hbefore
        · exact hold
      · rcases harchive a hin with hbefore | rfl
        · exact hG a ha hbefore
        · exact hout ha
      · rcases harchive a ha with hbefore | rfl
        · exact hahead a hbefore hap hak f (List.mem_cons_of_mem g hf)
        · exact (List.pairwise_cons.mp hsorted).1 f hf

/-- The hour of a snapshot delivered is taken. -/
theorem hour_taken (h : Settled X db) (hstored : ∀ a ∈ archive db, a ∈ S) {e : Event}
    {r : RateSnapshot F} (he : e ∈ S) (hsure : Sure P e) (hread : readRates X e = some r) :
    ∃ f ∈ archive (deliver X P [e] db), ∃ r', readRates X f = some r' ∧ r'.pubkey = r.pubkey
      ∧ Heartbeats.bucketOf r'.publishedAt = Heartbeats.bucketOf r.publishedAt := by
  have hp := readRates_eq_some.mp hread
  rcases archived_or_redundant (hadm e he) hsure hp with ⟨record, hk⟩ |
    ⟨-, hr, hsame⟩
  · have hin : record.rawJson ∈ archive (deliver X P [e] db) := ⟨_, record, hk, rfl⟩
    have hmem : record.rawJson ∈ S :=
      stored_deliver hstored (List.forall_mem_singleton.mpr he) _ hin
    have hparse := (same_of_id (hadm e he) (hadm _ hmem)
      ((settled_deliver h).tables.rawJson_id hk)).2.2.2.2
    exact ⟨_, hin, r, readRates_eq_some.mpr (hparse.trans hp), rfl, rfl⟩
  · rcases redundant_cases h hp hr with ⟨hkind, -⟩ | ⟨s, hs, f, hf, r', hr', hsameHour⟩
    · rw [readRates_kind hread] at hkind
      exact absurd hkind (by decide)
    · cases hs.symm.trans hread
      obtain ⟨hlo, hhi⟩ := Thinning.publishedAt_bounds hread
      obtain ⟨hpubkey, hbucket, -⟩ := (Thinning.sameHour_iff hlo hhi).mp hsameHour
      rw [archive_of_events hsame]
      exact ⟨f, hf, r', hr', hpubkey, hbucket⟩

theorem hours_taken {events : List Event} (h : Settled X db)
    (hstored : ∀ a ∈ archive db, a ∈ S) (hevents : ∀ e ∈ events, e ∈ S ∧ Sure P e) {e : Event}
    {r : RateSnapshot F} (he : e ∈ events) (hread : readRates X e = some r) :
    ∃ f ∈ archive (deliver X P events db), ∃ r', readRates X f = some r' ∧ r'.pubkey = r.pubkey
      ∧ Heartbeats.bucketOf r'.publishedAt = Heartbeats.bucketOf r.publishedAt := by
  induction events generalizing db with
  | nil => exact nomatch he
  | cons first rest ih =>
      obtain ⟨hfirst, hsure⟩ := hevents first List.mem_cons_self
      have hstep : ∀ a ∈ archive (deliver X P [first] db), a ∈ S :=
        stored_deliver hstored (List.forall_mem_singleton.mpr hfirst)
      rw [deliver_cons]
      rcases List.mem_cons.mp he with rfl | hlater
      · obtain ⟨f, hf, hrest⟩ := hour_taken hadm h hstored hfirst hsure hread
        exact ⟨f, archive_deliver_mono hf, hrest⟩
      · exact ih (settled_deliver h) hstep
          (fun x hx => hevents x (List.mem_cons_of_mem first hx)) hlater

omit hadm in
/-- Snapshots of hours already taken leave the archive as it is. -/
theorem archive_of_taken {events : List Event} (h : Settled X db)
    (hevents : ∀ g ∈ events, ∃ s, readRates X g = some s ∧ ∃ f ∈ archive db, ∃ r,
      readRates X f = some r ∧ Thinning.SameHour r s) :
    archive (deliver X P events db) = archive db := by
  induction events generalizing db with
  | nil => rfl
  | cons g rest ih =>
      obtain ⟨s, hs, f, hf, r, hr, hsame⟩ := hevents g List.mem_cons_self
      have hp := readRates_eq_some.mp hs
      have hkept : archive (deliver X P [g] db) = archive db :=
        archive_of_events (events_of_redundant (c := call g) hp
          (redundant_of_sameHour h hp hs hf hr hsame))
      have hrest := ih (settled_deliver h) fun x hx => by
        rw [hkept]
        exact hevents x (List.mem_cons_of_mem g hx)
      exact hrest.trans hkept

/-- **A SNAPSHOT SILENCES THOSE OF ITS HOUR**: received first, it leaves no room for
    them. -/
theorem archive_of_mates {mates events : List Event}
    (hmates : ∀ m ∈ mates, m ∈ S ∧ Sure P m)
    (hevents : ∀ g ∈ events, g ∈ S ∧ (∀ m ∈ mates, m.id ≠ g.id) ∧ ∃ s, readRates X g = some s
      ∧ ∃ m ∈ mates, ∃ r, readRates X m = some r ∧ Thinning.SameHour r s) :
    archive (deliver X P (mates ++ events) (Db.empty : Db F))
      = archive (deliver X P mates Db.empty) := by
  rw [deliver_append]
  refine archive_of_taken (settled_deliver settled_empty) fun g hg => ?_
  obtain ⟨hgS, hids, s, hs, m, hm, r, hr, hsame⟩ := hevents g hg
  obtain ⟨f, hf, r', hr', hpubkey, hbucket⟩ := hours_taken hadm
    settled_empty (fun _ ⟨_, _, h, _⟩ => nomatch h) hmates hm hr
  obtain ⟨hlo, hhi⟩ := Thinning.publishedAt_bounds hs
  obtain ⟨hp, hb, hfits, -⟩ := (Thinning.sameHour_iff hlo hhi).mp hsame
  refine ⟨s, hs, f, hf, r', hr', (Thinning.sameHour_iff hlo hhi).mpr
    ⟨hpubkey.trans hp, hbucket.trans hb, hfits, ?_⟩⟩
  rw [(readRates_origin hr').1, (readRates_origin hs).1]
  exact hids f (mem_of_delivered hf)

omit hadm in
theorem mem_part {p : Event → Prop} [DecidablePred p] {f : Event} :
    f ∈ (S.filter p).toList ↔ f ∈ S ∧ p f :=
  Finset.mem_toList.trans Finset.mem_filter

/-- What silences an event of `G`: an older version of it, or a snapshot of its hour
    that is not of `G`. -/
def Outrun (X : Externals F) (S : Finset Event) (G : Set Event) (g : Event) : Prop :=
  (g.kind ∈ announcing ∧ ∃ t ∈ S, Repeats t g ∧ t.at < g.at)
    ∨ ∃ s, readRates X g = some s ∧ ∃ m ∈ S, m ∉ G ∧ ∃ r, readRates X m = some r
      ∧ Thinning.SameHour r s

omit hadm in
/-- Of every event that has an older version, one. -/
theorem exists_older (S : Finset Event) :
    ∃ older : Event → Event, ∀ g, (∃ t ∈ S, Repeats t g ∧ t.at < g.at) →
      older g ∈ S ∧ Repeats (older g) g ∧ (older g).at < g.at := by
  classical
  refine ⟨fun g => if h : ∃ t ∈ S, Repeats t g ∧ t.at < g.at then h.choose else g, fun g h => ?_⟩
  dsimp only
  rw [dif_pos h]
  exact h.choose_spec

omit hadm in
/-- The snapshot that outruns another is as sure to be taken. -/
theorem sure_of_sameHour {m g : Event} {r s : RateSnapshot F} (hr : readRates X m = some r)
    (hs : readRates X g = some s) (hsame : Thinning.SameHour r s) (hsure : Sure P g) :
    Sure P m := by
  have hpubkey : m.pubkey = g.pubkey := by
    rw [← (readRates_origin hr).2, hsame.1, (readRates_origin hs).2]
  rw [Sure, hpubkey, readRates_kind hr, ← readRates_kind hs]
  exact hsure

/-- **THE ORDER THAT SILENCES**: first who leaves no trace, then the snapshots that
    outrun with those they outrun, then every announcement after an older version of
    it, then everything else. -/
theorem silenced_schedule {G : Set Event} (pubkey : String) {older : Event → Event}
    {unsure mates snapshots versions rest : List Event}
    (hunsure : ∀ f ∈ unsure, ¬ Sure P f)
    (hmates : ∀ m ∈ mates, m ∈ S ∧ Sure P m ∧ m ∉ G ∧ m.kind = ratesKind)
    (hsnapshots : ∀ g ∈ snapshots, g ∈ S ∧ (∀ m ∈ mates, m.id ≠ g.id)
      ∧ ∃ s, readRates X g = some s ∧ ∃ m ∈ mates, ∃ r, readRates X m = some r
        ∧ Thinning.SameHour r s)
    (hversions : ∀ g ∈ versions, g ∈ voices X S pubkey ∧ g.kind ∈ announcing ∧ Sure P g
      ∧ older g ∈ S ∧ older g ∉ G ∧ Repeats (older g) g ∧ (older g).at < g.at)
    (hsorted : versions.Pairwise fun a b => rank (older b) ≤ rank (older a))
    (hrest : ∀ f ∈ rest, f ∉ G) :
    Silenced G (deliver X P (unsure ++ ((mates ++ snapshots)
      ++ (versions.flatMap (fun g => [older g, g]) ++ rest))) (Db.empty : Db F)) := by
  rw [deliver_append, deliver_unsure hunsure, deliver_append, deliver_append]
  refine silenced_deliver ?_ hrest
  have harchive := archive_of_mates hadm (fun m hm => ⟨(hmates m hm).1, (hmates m hm).2.1⟩)
    hsnapshots
  have honly : ∀ a ∈ archive (deliver X P (mates ++ snapshots) (Db.empty : Db F)),
      a ∈ mates := by
    intro a ha
    rw [harchive] at ha
    exact mem_of_delivered ha
  refine silenced_chain hadm pubkey older (settled_deliver settled_empty)
    (fun a ha => (hmates a (honly a ha)).1)
    (fun a ha hin => (hmates a (honly a hin)).2.2.1 ha) hversions hsorted
    fun a ha _ hkind => ?_
  rw [(hmates a (honly a ha)).2.2.2] at hkind
  exact absurd hkind (by decide)

/-- **WHAT CAN BE SILENCED ONE BY ONE CAN BE SILENCED TOGETHER**: events of one
    publisher and one second, each outrun by something outside them. -/
theorem exists_silencing {G : Set Event} {pubkey : String} {stamp : Int}
    (hvoices : ∀ g ∈ G, g ∈ voices X S pubkey) (hstamp : ∀ g ∈ G, g.at = stamp)
    (hids : ∀ a ∈ S, a ∉ G → ∀ g ∈ G, a.id ≠ g.id)
    (houtrun : ∀ g ∈ G, Sure P g → Outrun X S G g) :
    ∃ events, Receives S (events.map call)
      ∧ Silenced G (deliver X P events (Db.empty : Db F)) := by
  classical
  obtain ⟨older, holder⟩ := exists_older S
  let unsure := (S.filter fun f => ¬ Sure P f).toList
  let mates := (S.filter fun f => Sure P f ∧ f ∉ G ∧ f.kind = ratesKind).toList
  let snapshots := (S.filter fun f => Sure P f ∧ f ∈ G ∧ f.kind = ratesKind).toList
  let versions := (S.filter fun f => Sure P f ∧ f ∈ G ∧ f.kind ≠ ratesKind).toList.insertionSort
    fun a b => rank (older b) ≤ rank (older a)
  let rest := (S.filter fun f => Sure P f ∧ f ∉ G).toList
  have hunsure : ∀ f, f ∈ unsure ↔ f ∈ S ∧ ¬ Sure P f := fun _ => mem_part
  have hmates : ∀ f, f ∈ mates ↔ f ∈ S ∧ Sure P f ∧ f ∉ G ∧ f.kind = ratesKind :=
    fun _ => mem_part
  have hsnapshots : ∀ f, f ∈ snapshots ↔ f ∈ S ∧ Sure P f ∧ f ∈ G ∧ f.kind = ratesKind :=
    fun _ => mem_part
  have hversions : ∀ f, f ∈ versions ↔ f ∈ S ∧ Sure P f ∧ f ∈ G ∧ f.kind ≠ ratesKind := fun _ =>
    (List.mem_insertionSort (r := fun a b => rank (older b) ≤ rank (older a))).trans mem_part
  have hrest : ∀ f, f ∈ rest ↔ f ∈ S ∧ Sure P f ∧ f ∉ G := fun _ => mem_part
  -- What is no snapshot is outrun by an older version, a snapshot by one of its hour.
  have hold : ∀ g ∈ versions, g.kind ∈ announcing
      ∧ older g ∈ S ∧ Repeats (older g) g ∧ (older g).at < g.at := by
    intro g hg
    obtain ⟨-, hsure, hgG, hkind⟩ := (hversions g).mp hg
    rcases houtrun g hgG hsure with ⟨hannounces, hold⟩ | ⟨s, hs, -⟩
    · exact ⟨hannounces, holder g hold⟩
    · exact absurd (readRates_kind hs) hkind
  have hmate : ∀ g ∈ snapshots, ∃ s, readRates X g = some s ∧ ∃ m ∈ mates, ∃ r,
      readRates X m = some r ∧ Thinning.SameHour r s := by
    intro g hg
    obtain ⟨-, hsure, hgG, hkind⟩ := (hsnapshots g).mp hg
    rcases houtrun g hgG hsure with ⟨hannounces, -⟩ | ⟨s, hs, m, hm, hout, r, hr, hsame⟩
    · rw [hkind] at hannounces
      exact absurd hannounces (by decide)
    · have hmsure := sure_of_sameHour hr hs hsame hsure
      exact ⟨s, hs, m, (hmates m).mpr ⟨hm, hmsure, hout, readRates_kind hr⟩, r, hr, hsame⟩
  have hsorted : versions.Pairwise fun a b => rank (older b) ≤ rank (older a) :=
    List.pairwise_insertionSort _ _
  refine ⟨unsure ++ ((mates ++ snapshots) ++ (versions.flatMap (fun g => [older g, g]) ++ rest)),
    receives_map fun f => ?_, silenced_schedule hadm pubkey (fun f hf => ((hunsure f).mp hf).2)
      (fun m hm => (hmates m).mp hm) (fun g hg => ?_) (fun g hg => ?_) hsorted
      fun f hf => ((hrest f).mp hf).2.2⟩
  · -- Every event is in one of the five, and nothing else is.
    simp only [List.mem_append, List.mem_flatMap, List.mem_pair, hunsure, hmates, hsnapshots,
      hrest]
    constructor
    · intro hf
      by_cases hsure : Sure P f
      · by_cases hfG : f ∈ G
        · by_cases hkind : f.kind = ratesKind
          · exact .inr (.inl (.inr ⟨hf, hsure, hfG, hkind⟩))
          · exact .inr (.inr (.inl ⟨f, (hversions f).mpr ⟨hf, hsure, hfG, hkind⟩, .inr rfl⟩))
        · exact .inr (.inr (.inr ⟨hf, hsure, hfG⟩))
      · exact .inl ⟨hf, hsure⟩
    · rintro (hf | (hf | hf) | ⟨g, hg, rfl | rfl⟩ | hf)
      · exact hf.1
      · exact hf.1
      · exact hf.1
      · exact (hold g hg).2.1
      · exact ((hversions f).mp hg).1
      · exact hf.1
  · obtain ⟨hgS, -, hgG, -⟩ := (hsnapshots g).mp hg
    refine ⟨hgS, fun m hm => ?_, hmate g hg⟩
    obtain ⟨hmS, -, hout, -⟩ := (hmates m).mp hm
    exact hids m hmS hout g hgG
  · obtain ⟨-, hsure, hgG, -⟩ := (hversions g).mp hg
    obtain ⟨hannounces, hoS, hrepeats, hlt⟩ := hold g hg
    refine ⟨hvoices g hgG, hannounces, hsure, hoS, fun hin => ?_, hrepeats, hlt⟩
    rw [hstamp _ hin, hstamp g hgG] at hlt
    exact lt_irrefl _ hlt

/-- Of an order-free set one of the newest of a name is archived, whatever the order:
    received first, the newest would be listed. -/
theorem heard_of_orderFree (h : OrderFree X P S) {pubkey : String}
    (hknown : Known X P S pubkey) {name : String} {top : Event}
    (htop : top ∈ calling (voices X S pubkey) name)
    (hnewest : ∀ f ∈ calling (voices X S pubkey) name, f.at ≤ top.at) {order : List Event}
    (hreceives : Receives S (order.map call)) :
    ∃ f ∈ calling (voices X S pubkey) name, f.at = top.at
      ∧ f ∈ archive (deliver X P order (Db.empty : Db F)) := by
  obtain ⟨events, hsub, hheard⟩ := exists_heard hadm hknown htop.1
  have hlabels : ∀ events, Labels (legible X (deliver X P events (Db.empty : Db F)))
      (deliver X P events Db.empty) := fun events => labels_ingestAll labels_empty
  obtain ⟨seen, hseen, hle⟩ := (hlabels (events ++ S.toList)).known top
    ⟨by rw [deliver_append]; exact archive_deliver_mono hheard, htop.1.2.2⟩ name htop.2
  have hsame := (h.same ((events ++ S.toList).map call) _ (receives_map fun f => by
    rw [List.mem_append, Finset.mem_toList]
    exact ⟨.inr, fun hf => hf.elim (hsub f) id⟩) hreceives).2
  rw [htop.1.2.1] at hseen
  have hseen' := (congrArg (fun t => t[toLex (pubkey, name)]?) hsame).symm.trans hseen
  obtain ⟨f, hf, hfp, hfname, hfat⟩ := (hlabels _).listed pubkey name seen hseen'
  have hfS : f ∈ S :=
    (hreceives f).mpr ⟨call f, List.mem_map_of_mem (mem_of_delivered hf.1), rfl⟩
  have hcalling : f ∈ calling (voices X S pubkey) name := ⟨⟨hfS, hfp, hf.2⟩, hfname⟩
  exact ⟨f, hcalling, le_antisymm (hnewest f hcalling) (hfat ▸ hle), hf.1⟩

/-- Of an order-free set, the newest event of a name is lasting, or one as new is:
    otherwise all the newest can be silenced. -/
theorem kept_of_orderFree (h : OrderFree X P S) {pubkey : String}
    (hknown : Known X P S pubkey) {e : Event} (he : e ∈ voices X S pubkey) {name : String}
    (hname : instanceName e = some name) :
    ∃ f ∈ calling (voices X S pubkey) name, Lasting X P S f ∧ e.at ≤ f.at := by
  by_contra hno
  obtain ⟨top, htop⟩ := exists_newest (S := S) (A := calling (voices X S pubkey) name)
    (fun g hg => hg.1.1) ⟨e, he, hname⟩
  let G : Set Event := {g | g ∈ calling (voices X S pubkey) name ∧ g.at = top.at}
  have hlasting : ∀ g ∈ G, ¬ Lasting X P S g := by
    rintro g ⟨hg, hat⟩ hlasting
    exact hno ⟨g, hg, hlasting, (htop.2 e ⟨he, hname⟩).trans hat.ge⟩
  -- What does not last is outrun.
  have houtrun : ∀ g ∈ G, Sure P g → Outrun X S G g := by
    rintro g ⟨⟨hg, hgname⟩, hat⟩ hsure
    by_contra hneither
    rw [Outrun, not_or] at hneither
    refine hlasting g ⟨⟨hg, hgname⟩, hat⟩ ⟨hsure, fun hkind f hf hrepeats => ?_,
      fun s hs f hf r hr hsame => ?_⟩
    · by_contra hlt
      exact hneither.1 ⟨hkind, f, hf, hrepeats, not_le.mp hlt⟩
    · by_contra hother
      refine hneither.2 ⟨s, hs, f, hf, ?_, r, hr, hsame⟩
      rintro ⟨⟨-, hfname⟩, hfat⟩
      exact hother ⟨hfname.trans hgname.symm, hfat.trans hat.symm⟩
  -- Two events of one id are both of them or neither.
  have hids : ∀ a ∈ S, a ∉ G → ∀ g ∈ G, a.id ≠ g.id := by
    rintro a ha hout g ⟨⟨hg, hgname⟩, hat⟩ hid
    obtain ⟨hp, -, ht, hn, hparse⟩ := same_of_id (hadm g hg.1) (hadm a ha) hid
    exact hout ⟨⟨⟨ha, hp.trans hg.2.1, hparse ▸ hg.2.2⟩, hn.trans hgname⟩, ht.trans hat⟩
  obtain ⟨order, hreceives, hsilenced⟩ := exists_silencing hadm (fun g hg => hg.1.1)
    (fun g hg => hg.2) hids houtrun
  obtain ⟨f, hf, hat, hheard⟩ := heard_of_orderFree hadm h hknown htop.1 htop.2 hreceives
  exact hsilenced f ⟨hf, hat⟩ hheard

end Silence

/-! ## Two names of one second -/

/-- The publisher's row bears this name, as of this second. -/
def Bears (pubkey label : String) (stamp : Int) (db : Db F) : Prop :=
  ∃ row, db.instances[pubkey]? = some row ∧ row.name = some label ∧ row.nameSeenAt = some stamp

/-- Delivering the event takes no name away: it is redundant, or as new as the
    name only under the same one. -/
def Yields (X : Externals F) (pubkey label : String) (stamp : Int) (e : Event) (db : Db F) :
    Prop :=
  ∀ parsed, parse X e = .ok parsed →
    Heartbeats.isRedundant e (parsedHeartbeat parsed) db = false → e.pubkey = pubkey →
      ∀ name, instanceName e = some name → e.at ≤ stamp ∧ (e.at = stamp → name = label)

/-- **STEP**: a name stays while every event yields to it. -/
theorem bears_ingest {pubkey label : String} {stamp : Int} {c : Call}
    (h : Bears pubkey label stamp db) (hyields : Yields X pubkey label stamp c.event db) :
    Bears pubkey label stamp (ingest X P c db).2 := by
  obtain ⟨row, hrow, hname, hseen⟩ := h
  obtain ⟨outcome, out, heq, hcases⟩ := ingest_cases X P c db
  rw [heq]
  cases hcases with
  | turnedAway _ => exact ⟨row, hrow, hname, hseen⟩
  | unread _ _ => exact ⟨row, hrow, hname, hseen⟩
  | duplicate _ _ _ _ => exact ⟨row, hrow, hname, hseen⟩
  | redundant _ _ _ =>
      -- A repetition is a sign of life, and carries no name.
      have hlook := getElem?_upsert c.event.pubkey none c.event.at db pubkey
      obtain ⟨hn, hs⟩ := entry_unnamed db.instances[c.event.pubkey]? c.event.pubkey c.event.at
      by_cases hours : c.event.pubkey = pubkey
      · rw [if_pos hours] at hlook
        refine ⟨_, hlook, ?_, ?_⟩
        · rw [hn, hours, hrow]
          exact hname
        · rw [hs, hours, hrow]
          exact hseen
      · rw [if_neg hours] at hlook
        exact ⟨row, hlook.trans hrow, hname, hseen⟩
  | @stored parsed _ hp hr hk =>
      have hinstances : (advance c (persist X c.event parsed
          { db with events := db.events.insertIfNew c.event.id c.record })).instances
            = (Instances.upsert c.event.pubkey (instanceName c.event) c.event.at db).instances := by
        show (persist X c.event parsed _).instances = _
        rw [(Rebuild.persist_bestiary c.event parsed _).1, Pipeline.sighted]
        cases instanceName c.event with
        | none => rfl
        | some name => rfl
      have hlook := getElem?_upsert c.event.pubkey (instanceName c.event) c.event.at db pubkey
      rw [Bears, hinstances]
      by_cases hours : c.event.pubkey = pubkey
      · rw [if_pos hours] at hlook
        refine ⟨_, hlook, ?_⟩
        cases hlabel : instanceName c.event with
        | none =>
            obtain ⟨hn, hs⟩ := entry_unnamed db.instances[c.event.pubkey]? c.event.pubkey
              c.event.at
            rw [hn, hs, hours, hrow]
            exact ⟨hname, hseen⟩
        | some name =>
            -- It is older than the name that stands, or of its second and gives the same.
            obtain ⟨hle, hsame⟩ := hyields parsed hp hr hours name hlabel
            rcases entry_named db.instances[c.event.pubkey]? c.event.pubkey c.event.at name with
              ⟨seen, hold, -, hn, hs⟩ | ⟨hnewer, hn, hs⟩
            · rw [hours, hrow, Option.bind_some, hseen] at hold
              cases hold
              rw [hn, hs, hours, hrow]
              exact ⟨hname, rfl⟩
            · rw [hours, hrow, Option.bind_some] at hnewer
              have hat : c.event.at = stamp := le_antisymm hle (hnewer stamp hseen)
              rw [hn, hs, hsame hat, hat]
              exact ⟨rfl, rfl⟩
      · rw [if_neg hours] at hlook
        exact ⟨row, hlook.trans hrow, hname, hseen⟩

/-- **RUN**: whatever else is archived by then. -/
theorem bears_deliver {pubkey label : String} {stamp : Int} {events : List Event}
    (hset : Settled X db) (h : Bears pubkey label stamp db)
    (hyields : ∀ e ∈ events, ∀ db' : Db F, Settled X db' →
      (∀ a ∈ archive db, a ∈ archive db') → Yields X pubkey label stamp e db') :
    Bears pubkey label stamp (deliver X P events db) := by
  induction events generalizing db with
  | nil => exact h
  | cons e rest ih =>
      have hnow := hyields e List.mem_cons_self db hset fun a ha => ha
      rw [deliver_cons]
      refine ih (settled_deliver hset)
        (bears_ingest (c := call e) h hnow) fun f hf db' hset' hkeep => ?_
      exact hyields f (List.mem_cons_of_mem e hf) db' hset' fun a ha =>
        hkeep a (archive_deliver_mono ha)

/-- An event archived as the newest of its name gives it. -/
theorem bears_of_new {e : Event} {parsed : Parsed F} {label : String}
    (hadmitted : Admitted X P e db) (hp : parse X e = .ok parsed)
    (hr : Heartbeats.isRedundant e (parsedHeartbeat parsed) db = false)
    (hk : db.events[e.id]? = none) (hlabel : instanceName e = some label)
    (hnewest : ∀ row seen, db.instances[e.pubkey]? = some row → row.nameSeenAt = some seen →
      seen ≤ e.at) : Bears e.pubkey label e.at (deliver X P [e] db) := by
  have hinstances : (deliver X P [e] db).instances
      = (Instances.upsert e.pubkey (some label) e.at db).instances := by
    show (ingest X P (call e) db).2.instances = _
    rw [archived_of_new hadmitted hp hr hk]
    show (persist X e parsed _).instances = _
    rw [(Rebuild.persist_bestiary e parsed _).1, Pipeline.sighted, hlabel]
    rfl
  have hlook := getElem?_upsert e.pubkey (some label) e.at db e.pubkey
  rw [if_pos rfl, ← hinstances] at hlook
  refine ⟨_, hlook, ?_⟩
  rcases entry_named db.instances[e.pubkey]? e.pubkey e.at label with
    ⟨seen, hold, hlt, -, -⟩ | ⟨-, hn, hs⟩
  · obtain ⟨row, hrow, hseen⟩ := Option.bind_eq_some_iff.mp hold
    exact absurd (hnewest row seen hrow hseen) (not_le.mpr hlt)
  · exact ⟨hn, hs⟩

section Ties

variable (hadm : ∀ e ∈ S, admission X P e = none)

include hadm

/-- Once an event with a `y` tag has been delivered, its publisher is vouched for. -/
theorem vouchedFor_after (h : Settled X db) (hstored : ∀ a ∈ archive db, a ∈ S) {q e : Event}
    (hq : q ∈ voices X S e.pubkey) (htagged : untaggedKinds.contains q.kind = false) :
    vouchedFor P e (deliver X P [q] db) = none := by
  have hset : Settled X (deliver X P [q] db) := settled_deliver h
  obtain ⟨parsed, hp⟩ := hq.2.2
  rcases archived_or_redundant (hadm q hq.1) (.inl htagged) hp with ⟨r, hk⟩ |
    ⟨-, hr, hsame⟩
  · have hin : r.rawJson ∈ archive (deliver X P [q] db) := ⟨_, r, hk, rfl⟩
    have hS : r.rawJson ∈ S :=
      stored_deliver hstored (List.forall_mem_singleton.mpr hq.1) _ hin
    obtain ⟨hpubkey, hkind, -, -, hparse⟩ := same_of_id (hadm q hq.1) (hadm _ hS)
      (hset.tables.rawJson_id hk)
    exact vouchedFor_of_archived hset (f := r.rawJson)
      ⟨hin, hpubkey.trans hq.2.1, hparse ▸ hq.2.2⟩ (hkind ▸ htagged)
  · rcases redundant_cases h hp hr with ⟨hkind, v, hv, hrepeats, -⟩ | ⟨s, hs, -⟩
    · refine vouchedFor_of_archived hset (f := v) ⟨?_, hrepeats.pubkey.trans hq.2.1,
        hrepeats.readable hkind hq.2.2⟩ (hrepeats.kind ▸ htagged)
      rw [archive_of_events hsame]
      exact hv
    · rw [readRates_kind hs] at htagged
      exact absurd htagged (by decide)

/-- What vouches for an event, of another kind; nothing where nothing is needed. -/
theorem exists_proof {e : Event} (hknown : Known X P S e.pubkey)
    (he : e ∈ voices X S e.pubkey) :
    ∃ proof : List Event, (∀ a ∈ proof, a ∈ S ∧ a.kind ≠ e.kind) ∧
      ∀ db : Db F, Settled X db → (∀ a ∈ archive db, a ∈ S) →
        vouchedFor P e (deliver X P proof db) = none := by
  by_cases hsure : Sure P e
  · exact ⟨[], (fun a ha => nomatch ha), fun db _ _ => vouchedFor_of_sure hsure db⟩
  · obtain ⟨q, hq, htagged⟩ := exists_tagged hknown he hsure
    refine ⟨[q], fun a ha => ?_, fun db h hstored => vouchedFor_after hadm h hstored hq htagged⟩
    rw [List.mem_singleton.mp ha]
    refine ⟨hq.1, fun hkind => hsure (.inl ?_)⟩
    rw [← hkind]
    exact htagged

omit hadm in
theorem sameHour_symm {r s : RateSnapshot F} {e f : Event} (hr : readRates X e = some r)
    (hs : readRates X f = some s) (h : Thinning.SameHour r s) : Thinning.SameHour s r := by
  obtain ⟨hlo, hhi⟩ := Thinning.publishedAt_bounds hs
  obtain ⟨hlo', hhi'⟩ := Thinning.publishedAt_bounds hr
  obtain ⟨hpubkey, hbucket, hfits, hid⟩ := (Thinning.sameHour_iff hlo hhi).mp h
  exact (Thinning.sameHour_iff hlo' hhi').mpr
    ⟨hpubkey.symm, hbucket.symm, hbucket ▸ hfits, hid.symm⟩

/-- Two snapshots of one publisher and one hour. -/
def SharesHour (X : Externals F) (a f : Event) : Prop :=
  ∃ r s, readRates X a = some r ∧ readRates X f = some s ∧ Thinning.SameHour r s

/-- Where nothing of its kind bears its name and nothing of its hour has been kept, an
    event is new. -/
theorem new_of_apart {f : Event} {parsed : Parsed F} (h : Settled X db)
    (hstored : ∀ a ∈ archive db, a ∈ S) (hf : f ∈ S) (hp : parse X f = .ok parsed)
    (hapart : ∀ a ∈ archive db, ¬ (a.kind = f.kind ∧ instanceName a = instanceName f))
    (hhour : ∀ a ∈ archive db, ¬ SharesHour X a f) :
    Heartbeats.isRedundant f (parsedHeartbeat parsed) db = false
      ∧ db.events[f.id]? = none := by
  constructor
  · by_contra hr
    rw [Bool.not_eq_false] at hr
    rcases redundant_cases h hp hr with ⟨-, v, hv, hrepeats, -⟩ | ⟨s, hs, v, hv, r, hvr, hsame⟩
    · exact hapart v hv ⟨hrepeats.kind, hrepeats.name⟩
    · exact hhour v hv ⟨r, s, hvr, hs, hsame⟩
  · cases hk : db.events[f.id]? with
    | none => rfl
    | some r =>
        have hin : r.rawJson ∈ archive db := ⟨_, r, hk, rfl⟩
        obtain ⟨-, hkind, -, hname, -⟩ := same_of_id (hadm f hf) (hadm _ (hstored _ hin))
          (h.tables.rawJson_id hk)
        exact absurd ⟨hkind, hname⟩ (hapart _ hin)

omit hadm in
/-- What is received beside a newest name leaves it, when nothing of its second has
    another. -/
theorem bears_beside {f : Event} {label : String} {others : List Event} (hset : Settled X db)
    (hf : Newest (naming (voices X S f.pubkey)) f) (hlabel : instanceName f = some label)
    (hothers : ∀ a ∈ others, a ∈ S
      ∧ (a ∈ voices X S f.pubkey → a.at = f.at → instanceName a = instanceName f))
    (h : Bears f.pubkey label f.at db) :
    Bears f.pubkey label f.at (deliver X P others db) := by
  refine bears_deliver hset h fun a ha db' _ _ p hap _ hpub name hname => ?_
  obtain ⟨haS, hsame⟩ := hothers a ha
  have hvoice : a ∈ voices X S f.pubkey := ⟨haS, hpub, p, hap⟩
  have hnamed : instanceName a ≠ none := by
    rw [hname]
    exact Option.some_ne_none name
  refine ⟨hf.2 a ⟨hvoice, hnamed⟩, fun hat => ?_⟩
  have heq := hsame hvoice hat
  rw [hname, hlabel] at heq
  exact Option.some.inj heq

omit hadm in
/-- Neither does what is of its hour, once it is archived. -/
theorem bears_silenced {f : Event} {label : String} {late : List Event} (hset : Settled X db)
    (hmem : f ∈ archive db) (hlate : ∀ a ∈ late, SharesHour X a f)
    (h : Bears f.pubkey label f.at db) : Bears f.pubkey label f.at (deliver X P late db) := by
  refine bears_deliver hset h fun a ha db' hset' hkeep p hap hnew _ _ _ => ?_
  obtain ⟨r, s, har, hfs, hsame⟩ := hlate a ha
  have hredundant := redundant_of_sameHour hset' hap har (hkeep f hmem) hfs
    (sameHour_symm har hfs hsame)
  exact nomatch hnew.symm.trans hredundant

/-- A newest name that finds nothing of its name and nothing of its hour is read. -/
theorem bears_first {f : Event} {label : String} {parsed : Parsed F} (hset : Settled X db)
    (hlabels : Labels (legible X db) db) (hstored : ∀ a ∈ archive db, a ∈ S)
    (hf : Newest (naming (voices X S f.pubkey)) f) (hlabel : instanceName f = some label)
    (hp : parse X f = .ok parsed) (hvouched : vouchedFor P f db = none)
    (hapart : ∀ a ∈ archive db, ¬ (a.kind = f.kind ∧ instanceName a = instanceName f))
    (hhour : ∀ a ∈ archive db, ¬ SharesHour X a f) :
    Bears f.pubkey label f.at (deliver X P [f] db) ∧ f ∈ archive (deliver X P [f] db) := by
  have hadmitted : Admitted X P f db := ⟨hadm f hf.1.1.1, hvouched⟩
  obtain ⟨hr, hk⟩ := new_of_apart hadm hset hstored hf.1.1.1 hp hapart hhour
  refine ⟨bears_of_new hadmitted hp hr hk hlabel fun row seen hrow hseen => ?_,
    mem_archive_of_new hadmitted hp hr hk⟩
  obtain ⟨a, ha, hap, rfl, hnamed, -⟩ := hlabels.named f.pubkey row seen hrow hseen
  exact hf.2 a ⟨voices_mono hstored (mem_voices_archive.mpr ⟨ha, hap⟩), hnamed⟩

/-- **EITHER OF TWO NAMES CAN BE LAST**: an order that leaves the publisher with the
    name of any newest named event that is read. -/
theorem exists_bears {f : Event} {label : String} (hknown : Known X P S f.pubkey)
    (hf : Newest (naming (voices X S f.pubkey)) f) (hlabel : instanceName f = some label) :
    ∃ events, (∀ e, e ∈ S ↔ e ∈ events)
      ∧ Bears f.pubkey label f.at (deliver X P events (Db.empty : Db F)) := by
  classical
  obtain ⟨parsed, hp⟩ := hf.1.1.2.2
  obtain ⟨proof, hproof, hvouches⟩ := exists_proof hadm hknown hf.1.1
  let Rival : Event → Prop := fun a =>
    a ∈ voices X S f.pubkey ∧ a.at = f.at ∧ instanceName a ≠ instanceName f
  let early := (S.filter fun a => Rival a ∧ ¬ SharesHour X a f).toList
  let late := (S.filter fun a => Rival a ∧ SharesHour X a f).toList
  let others := (S.filter fun a => ¬ Rival a).toList
  have hearly : ∀ a, a ∈ early ↔ a ∈ S ∧ Rival a ∧ ¬ SharesHour X a f := fun _ => mem_part
  have hlate : ∀ a, a ∈ late ↔ a ∈ S ∧ Rival a ∧ SharesHour X a f := fun _ => mem_part
  have hothers : ∀ a, a ∈ others ↔ a ∈ S ∧ ¬ Rival a := fun _ => mem_part
  -- The database `f` finds: its rivals have been, except those it will silence.
  generalize hdb : deliver X P (early ++ proof) (Db.empty : Db F) = before
  have hset : Settled X before := hdb ▸ settled_deliver settled_empty
  have hlabels : Labels (legible X before) before := hdb ▸ labels_ingestAll labels_empty
  have hthere : ∀ a ∈ archive before, a ∈ early ∨ a ∈ proof := by
    intro a ha
    rw [← hdb] at ha
    exact List.mem_append.mp (mem_of_delivered ha)
  have hstored : ∀ a ∈ archive before, a ∈ S := fun a ha =>
    (hthere a ha).elim (fun h => ((hearly a).mp h).1) fun h => (hproof a h).1
  have hvouched : vouchedFor P f before = none := by
    rw [← hdb, deliver_append]
    exact hvouches _ (settled_deliver settled_empty) fun a ha =>
      ((hearly a).mp (mem_of_delivered ha)).1
  have hapart : ∀ a ∈ archive before, ¬ (a.kind = f.kind ∧ instanceName a = instanceName f) := by
    rintro a ha ⟨hkind, hname⟩
    rcases hthere a ha with hin | hin
    · exact ((hearly a).mp hin).2.1.2.2 hname
    · exact (hproof a hin).2 hkind
  have hhour : ∀ a ∈ archive before, ¬ SharesHour X a f := by
    rintro a ha ⟨r, s, hr, hs, hsame⟩
    rcases hthere a ha with hin | hin
    · exact ((hearly a).mp hin).2.2 ⟨r, s, hr, hs, hsame⟩
    · exact (hproof a hin).2 ((readRates_kind hr).trans (readRates_kind hs).symm)
  obtain ⟨hbears, hmem⟩ := bears_first hadm hset hlabels hstored hf hlabel hp hvouched hapart hhour
  refine ⟨(early ++ proof) ++ ([f] ++ (others ++ late)), fun a => ?_, ?_⟩
  · simp only [List.mem_append, List.mem_singleton, hearly, hlate, hothers]
    constructor
    · intro ha
      by_cases hrival : Rival a
      · by_cases hin : SharesHour X a f
        · exact .inr (.inr (.inr ⟨ha, hrival, hin⟩))
        · exact .inl (.inl ⟨ha, hrival, hin⟩)
      · exact .inr (.inr (.inl ⟨ha, hrival⟩))
    · rintro ((ha | ha) | rfl | ha | ha)
      · exact ha.1
      · exact (hproof a ha).1
      · exact hf.1.1.1
      · exact ha.1
      · exact ha.1
  · rw [deliver_append, hdb, deliver_append, deliver_append]
    refine bears_silenced (settled_deliver (settled_deliver hset)) (archive_deliver_mono hmem)
      (fun a ha => ((hlate a).mp ha).2.2) ?_
    refine bears_beside (settled_deliver hset) hf hlabel (fun a ha => ?_) hbears
    obtain ⟨haS, hrival⟩ := (hothers a).mp ha
    refine ⟨haS, fun hvoice hat => ?_⟩
    by_contra hother
    exact hrival ⟨hvoice, hat, hother⟩

/-- Of an order-free set, the newest names read are the newest name there is: of two
    names of one second either can be received last. -/
theorem agreed_of_orderFree (h : OrderFree X P S) {pubkey : String}
    (hknown : Known X P S pubkey) {e : Event}
    (he : Newest (naming {e | e ∈ S ∧ e.pubkey = pubkey}) e) :
    (∃ f, f ∈ naming (voices X S pubkey))
      ∧ ∀ f, Newest (naming (voices X S pubkey)) f → instanceName f = instanceName e := by
  classical
  have hlabels : ∀ events, Labels (legible X (deliver X P events (Db.empty : Db F)))
      (deliver X P events Db.empty) := fun events => labels_ingestAll labels_empty
  constructor
  · have hreceives : Receives S (S.toList.map call) :=
      receives_map fun f => Finset.mem_toList.symm
    have htold := told_deliver hadm (fun f hf => Finset.mem_toList.mp hf)
      (told_empty (F := F) (X := X) (P := P) (S := S))
    obtain ⟨q, hq, hsure⟩ := hknown
    obtain ⟨row, hrow, -⟩ := htold.framed pubkey q hq
      (.inl ⟨.inr (Finset.mem_toList.mpr hq.1), hsure⟩)
    have hname := h.named _ hreceives pubkey row hrow e he
    cases hseen : row.nameSeenAt with
    | none =>
        have hnone := (hlabels S.toList).unnamed pubkey row hrow hseen
        exact absurd (hname.symm.trans hnone) he.1.2
    | some seen =>
        obtain ⟨f, hf, hfp, -, hfnamed, -⟩ := (hlabels S.toList).named pubkey row seen hrow hseen
        exact ⟨f, voices_archive
          ⟨htold.settled, htold.stored, htold.drawn, fun p a ha hwhen => htold.framed p a ha
            (hwhen.imp_left fun hw => ⟨.inr (Finset.mem_toList.mpr hw.1), hw.2⟩),
            fun p a ha hin hlasting => htold.lasting p a ha
              (.inr (Finset.mem_toList.mpr hin)) hlasting⟩
          (mem_voices_archive.mpr ⟨hf, hfp⟩), hfnamed⟩
  · intro f hf
    obtain ⟨label, hlabel⟩ := Option.ne_none_iff_exists'.mp hf.1.2
    obtain rfl := hf.1.1.2.1
    obtain ⟨events, hevents, row, hrow, hname, -⟩ := exists_bears hadm hknown hf hlabel
    rw [hlabel, ← hname, h.named _ (receives_map hevents) f.pubkey row hrow e he]

end Ties

/-! ## The result -/

/-- **THE BESTIARY IS ORDER FREE EXACTLY FOR STEADY SETS.**  Whatever set of admitted
    events is received, every order leaves the same rows, with the newest name on
    each, iff the events of every publisher that has a row are steady. -/
theorem orderFree_iff_steady (X : Externals F) (P : Policy) (S : Finset Event)
    (hadm : ∀ e ∈ S, admission X P e = none) :
    OrderFree X P S ↔ ∀ pubkey, Known X P S pubkey → Steady X P S pubkey := by
  refine ⟨fun h pubkey hknown => ?_, orderFree_of_steady hadm⟩
  exact ⟨fun e he => framed_of_orderFree hadm h hknown he,
    fun e he name hname => kept_of_orderFree hadm h hknown he hname,
    fun e he => agreed_of_orderFree hadm h hknown he⟩

/-! ## Two names of one second -/

/-- A publisher's order, under the name it goes by. -/
def orderBy (id : String) (createdAt : UInt64) (name : String) : Event :=
  { Convergence.orderEvent id Convergence.alice createdAt "pending" with
    tags := [["d", "9b2f3c1e-5d0a-4e7b-8c11-2f6a90d1c001"], ["k", "sell"], ["s", "pending"],
      ["f", "USD"], ["amt", "100000"], ["fa", "60"], ["pm", "cash"], ["premium", "0"],
      ["network", "mainnet"], ["expires_at", "1785700000"], ["y", "mostro", name],
      ["z", "order"]] }

def mercado : Event :=
  orderBy "4000000000000000000000000000000000000000000000000000000000000001" 1785600000 "mercado"

/-- The same second, another name. -/
def feria : Event :=
  orderBy "4000000000000000000000000000000000000000000000000000000000000002" 1785600000 "feria"

/-- The other name, a second later. -/
def renamed : Event :=
  orderBy "4000000000000000000000000000000000000000000000000000000000000003" 1785600001 "feria"

def market : Externals Int := Externals.over [mercado, feria, renamed] (by decide) []

/-- A name taken a second later: one bestiary, whichever came first. -/
theorem orderFree_of_renamed : OrderFree market Convergence.openPolicy {mercado, renamed} := by
  have hadm : ∀ e ∈ ({mercado, renamed} : Finset Event),
      admission market Convergence.openPolicy e = none := by
    intro e he
    simp only [Finset.mem_insert, Finset.mem_singleton] at he
    rcases he with rfl | rfl
    · decide
    · decide
  have hread : ∀ e ∈ ({mercado, renamed} : Finset Event),
      (∃ parsed, parse market e = .ok parsed) ∧ e.kind = orderKind
        ∧ untaggedKinds.contains e.kind = false := by
    intro e he
    simp only [Finset.mem_insert, Finset.mem_singleton] at he
    rcases he with rfl | rfl
    · exact ⟨⟨_, rfl⟩, rfl, by decide⟩
    · exact ⟨⟨_, rfl⟩, rfl, by decide⟩
  have hapart : ∀ e ∈ ({mercado, renamed} : Finset Event),
      ∀ f ∈ ({mercado, renamed} : Finset Event), e.at = f.at → e = f := by
    decide
  refine (orderFree_iff_steady market Convergence.openPolicy {mercado, renamed} hadm).mpr
    fun pubkey hknown => ⟨fun e he => ?_, fun e he name hname => ?_, fun e he => ?_⟩
  · have hsure : Sure Convergence.openPolicy e := .inl (hread e he.1).2.2
    exact ⟨e, he, e, he, hsure, hsure, le_refl _, le_refl _⟩
  · refine ⟨e, ⟨he, hname⟩, ⟨.inl (hread e he.1).2.2, fun hkind => ?_, fun s hs => ?_⟩, le_refl _⟩
    · rw [(hread e he.1).2.1] at hkind
      exact absurd hkind (by decide)
    · have hkind := readRates_kind hs
      rw [(hread e he.1).2.1] at hkind
      exact absurd hkind (by decide)
  · have hvoice : e ∈ naming (voices market ({mercado, renamed} : Finset Event) pubkey) :=
      ⟨⟨he.1.1.1, he.1.1.2, (hread e he.1.1.1).1⟩, he.1.2⟩
    refine ⟨⟨e, hvoice⟩, fun f hf => ?_⟩
    have hle : f.at ≤ e.at := he.2 f ⟨⟨hf.1.1.1, hf.1.1.2.1⟩, hf.1.2⟩
    have hge : e.at ≤ f.at := hf.2 e hvoice
    rw [hapart f hf.1.1.1 e he.1.1.1 (le_antisymm hle hge)]

/-- **THE LAST OF TWO TO ARRIVE IS THE NAME**: the two were signed in one second. -/
theorem same_second_two_names :
    ((ingestAll market Convergence.openPolicy [call mercado, call feria]
        Db.empty).instances[Convergence.alice]?).bind Instance.name = some "feria" ∧
      ((ingestAll market Convergence.openPolicy [call feria, call mercado]
        Db.empty).instances[Convergence.alice]?).bind Instance.name = some "mercado" ∧
      ¬ OrderFree market Convergence.openPolicy {mercado, feria} := by
  have hfirst : ((ingestAll market Convergence.openPolicy [call mercado, call feria]
      Db.empty).instances[Convergence.alice]?).bind Instance.name = some "feria" := by
    decide +kernel
  have hlast : ((ingestAll market Convergence.openPolicy [call feria, call mercado]
      Db.empty).instances[Convergence.alice]?).bind Instance.name = some "mercado" := by
    decide +kernel
  refine ⟨hfirst, hlast, fun h => ?_⟩
  have hsame := (h.same [call mercado, call feria] [call feria, call mercado]
    (show Receives _ ([mercado, feria].map call) from receives_map (by simp))
    (show Receives _ ([feria, mercado].map call) from receives_map (by simp [or_comm]))).1
  rw [hsame, hlast] at hfirst
  exact absurd hfirst (by decide)

end Bestiary
