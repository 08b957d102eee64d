import Bestiario.Lib.Timeline
import Bestiario.Convergence

/-! # What thinning does to the fee in force

    Step 6a drops an info version that repeats the one archived before it.
    Two histories are compared over every run: `keptVersions`, what ingest left
    in `instance_info`, and `everyVersion`, what it would hold had nothing been
    dropped.  `fee_in_force` reads both.

    A dropped version is COVERED by the one it repeats, so dropping is always
    safe.  What is not safe is a version that arrives LATE, between the two:
    the fee it names then outlives the dropped version that took it back. -/

namespace Retention

open Keyed Wire Parse Repo Pipeline Derived Timeline

variable {F : Type} {X : Externals F} {P : Policy}

/-! ## The same tags read the same -/

theorem perm_of_sameTags {a b : Event} (h : Heartbeats.sameTags a b = true) :
    a.tags.Perm b.tags := by
  have hsorted := eq_of_beq h
  have ha := List.perm_insertionSort (· ≤ ·) a.tags
  rw [hsorted] at ha
  exact ha.symm.trans (List.perm_insertionSort (· ≤ ·) b.tags)

/-- A tag is read the same in any order: a repeated one is an error. -/
theorem tagValues_of_perm {a b : Event} (h : a.tags.Perm b.tags) (name : String) :
    tagValues (F := F) a name = tagValues b name := by
  have hperm : (repeatedTagValues a name).Perm (repeatedTagValues b name) :=
    (h.filter _).map _
  rw [tagValues, tagValues]
  generalize repeatedTagValues a name = xs at hperm
  generalize repeatedTagValues b name = ys at hperm
  match xs with
  | [] => rw [List.nil_perm.mp hperm]
  | [values] => rw [List.singleton_perm.mp hperm]
  | x :: x' :: rest =>
      have hlen := hperm.length_eq
      match ys with
      | [] => exact nomatch hlen
      | [_] => exact absurd hlen (by simp)
      | y :: y' :: rest' =>
          simp only [hlen]

/-- Two versions of one publisher with the same tags parse alike, their own id
    and clock apart. -/
theorem parseInfo_of_sameTags {a b : Event} {info : InstanceInfo F}
    (hkind : a.kind = b.kind) (hpubkey : a.pubkey = b.pubkey)
    (htags : Heartbeats.sameTags a b = true) (h : parseInfo X b = .ok info) :
    parseInfo X a = .ok { info with eventId := a.id, createdAt := a.at } := by
  have hread := fun name => tagValues_of_perm (F := F) (perm_of_sameTags htags) name
  have hoptional : ∀ tag, Wire.optional (F := F) a tag = Wire.optional b tag := fun tag => by
    rw [Wire.optional, Wire.optional, hread]
  have hrequired : ∀ tag, required (F := F) a tag = required b tag := fun tag => by
    rw [required, required, hread]
  have hnumber : ∀ {T : Type} (fromStr : String → Option T) tag expected,
      optionalNumber (F := F) fromStr a tag expected
        = optionalNumber fromStr b tag expected := fun fromStr tag expected => by
    rw [optionalNumber, optionalNumber, hoptional]
  have hbool : ∀ tag, optionalBool (F := F) a tag = optionalBool b tag := fun tag => by
    rw [optionalBool, optionalBool, hoptional]
  simp only [parseInfo, expectKind, hkind, hpubkey, hrequired, hoptional, hnumber, hbool] at h ⊢
  simp only [bind_eq_ok] at h ⊢
  obtain ⟨u, hk, identifier, hd, h⟩ := h
  refine ⟨u, hk, identifier, hd, ?_⟩
  by_cases hne : identifier ≠ b.pubkey
  · rw [if_pos hne] at h
    cases h
  · rw [if_neg hne] at h ⊢
    simp only [bind_eq_ok] at h ⊢
    obtain ⟨fee, hfee, maxAmount, hmax, minAmount, hmin, fiats, hfiats, version, hversion,
      protocol, hprotocol, networks, hnetworks, bond, hbond, h⟩ := h
    refine ⟨fee, hfee, maxAmount, hmax, minAmount, hmin, fiats, hfiats, version, hversion,
      protocol, hprotocol, networks, hnetworks, bond, hbond, ?_⟩
    cases h
    rfl


/-- The row of a version that repeats another differs in its id and clock. -/
theorem readInfo_of_sameTags {a b : Event} {row : InstanceInfo F}
    (hkind : a.kind = b.kind) (hpubkey : a.pubkey = b.pubkey)
    (htags : Heartbeats.sameTags a b = true) (h : readInfo X b = some row) :
    readInfo X a = some { row with eventId := a.id, createdAt := a.at } := by
  obtain ⟨info, hp, rfl⟩ := readInfo_eq_some.mp h
  have hinfo := parse_info hp
  have ha := parseInfo_of_sameTags hkind hpubkey htags hinfo
  have hparse : parse X a
      = .ok (.info { info with eventId := a.id, createdAt := a.at }) := by
    have hk : a.kind = infoKind := (parseInfo_origin ha).1
    rw [parse, hk, ha]
    rfl
  rw [readInfo, hparse]
  rfl

/-- A version that parses is filed under its publisher's own key. -/
theorem dTag_of_readInfo {e : Event} {row : InstanceInfo F} (h : readInfo X e = some row) :
    e.kind = infoKind ∧ dTag e = some e.pubkey := by
  obtain ⟨info, hp, -⟩ := readInfo_eq_some.mp h
  have hinfo := parse_info hp
  refine ⟨(parseInfo_origin hinfo).1, ?_⟩
  simp only [parseInfo, bind_eq_ok] at hinfo
  obtain ⟨_, -, identifier, hd, hinfo⟩ := hinfo
  by_cases hne : identifier ≠ e.pubkey
  · rw [if_pos hne] at hinfo
    cases hinfo
  · have hid : identifier = e.pubkey := not_not.mp hne
    rw [required, tagValues] at hd
    rw [dTag, tagValues]
    rcases hr : repeatedTagValues e "d" with _ | ⟨values, _ | ⟨second, rest⟩⟩
    · rw [hr] at hd
      cases hd
    · rcases values with _ | ⟨value, _ | ⟨more, rest⟩⟩
      · rw [hr] at hd
        cases hd
      · rw [hr] at hd
        have hvalue : nonBlank (F := F) "d" value "a value" = .ok identifier := hd
        rw [nonBlank] at hvalue
        by_cases hblank : isBlank value = true
        · rw [if_pos hblank] at hvalue
          cases hvalue
        · rw [if_neg hblank] at hvalue
          rw [← hid, ← Except.ok.inj hvalue]
          rfl
      · rw [hr] at hd
        cases hd
    · rw [hr] at hd
      cases hd

/-! ## The two histories -/

/-- `received` and the version `c` brings, if it is admitted and is one. -/
def receive (X : Externals F) (P : Policy) (received : Table String (InstanceInfo F))
    (c : Call) : Table String (InstanceInfo F) :=
  match admission X P c.event with
  | none => put received c.event.id (readInfo X c.event)
  | some _ => received

/-- Every version received, as `instance_info` would hold it had ingest kept
    them all. -/
def everyVersion (X : Externals F) (P : Policy) (calls : List Call) :
    Table String (InstanceInfo F) :=
  calls.foldl (receive X P) ∅

/-- The versions ingest kept. -/
def keptVersions (X : Externals F) (P : Policy) (calls : List Call) :
    Table String (InstanceInfo F) :=
  (ingestAll X P calls Db.empty).instanceInfo

/-- At every instant the versions kept give the fee all of them would. -/
def SameFee (X : Externals F) (P : Policy) (pubkey : String) (calls : List Call) : Prop :=
  ∀ t, InstanceInfos.feeInForce (keptVersions X P calls) pubkey t
    = InstanceInfos.feeInForce (everyVersion X P calls) pubkey t

/-- Info versions by clock; at one instant the lowest id is the latest. -/
def announced : Clock (InstanceInfo F) ℤ (ℤᵒᵈ ×ₗ String) where
  stamp := InstanceInfo.createdAt
  rank := descAsc InstanceInfo.createdAt InstanceInfo.eventId
  stamp_le := by
    intro v w h
    rcases descAsc_le_iff.mp h with hlt | ⟨heq, -⟩
    · exact hlt.le
    · exact heq.ge

/-- The versions of `pubkey` that name a fee. -/
def named (versions : Table String (InstanceInfo F)) (pubkey : String) :
    Set (InstanceInfo F) :=
  {row | (∃ k : String, versions[k]? = some row) ∧ row.pubkey = pubkey
    ∧ row.fee.isSome = true}

/-- `c`, the next call, does not bring a fee too late: see `Timely`. -/
def OnTime (X : Externals F) (P : Policy) (pubkey : String) (calls : List Call)
    (c : Call) : Prop :=
  ∀ row, admission X P c.event = none → readInfo X c.event = some row →
    row.pubkey = pubkey → row.fee.isSome = true →
      Timely announced InstanceInfo.fee (named (keptVersions X P calls) pubkey)
        (named (everyVersion X P calls) pubkey) row

/-! ## The lookup is the version in force -/

/-- Every row is filed under its own event. -/
def Filed (versions : Table String (InstanceInfo F)) : Prop :=
  ∀ (k : String) row, versions[k]? = some row → row.eventId = k

theorem rank_injOn {versions : Table String (InstanceInfo F)} (h : Filed versions)
    (pubkey : String) : Set.InjOn announced.rank (named versions pubkey) := by
  rintro v ⟨⟨k, hk⟩, -⟩ w ⟨⟨k', hk'⟩, -⟩ heq
  have hid : v.eventId = w.eventId := congrArg Prod.snd heq
  rw [h k v hk, h k' w hk'] at hid
  subst hid
  exact Option.some.inj (hk.symm.trans hk')

/-- What `fee_in_force` selects among the versions. -/
def due (pubkey : String) (t : Int) (row : InstanceInfo F) : Bool :=
  row.pubkey == pubkey && decide (row.createdAt ≤ t) && row.fee.isSome

theorem feeInForce_eq (versions : Table String (InstanceInfo F)) (pubkey : String)
    (t : Int) : InstanceInfos.feeInForce versions pubkey t
      = (first announced.rank versions (due pubkey t)).bind InstanceInfo.fee := rfl

theorem due_eq_true {pubkey : String} {t : Int} {row : InstanceInfo F} :
    due pubkey t row = true
      ↔ row.pubkey = pubkey ∧ row.createdAt ≤ t ∧ row.fee.isSome = true := by
  rw [due, Bool.and_eq_true, Bool.and_eq_true, beq_iff_eq, decide_eq_true_iff, and_assoc]

theorem latest_of_first {versions : Table String (InstanceInfo F)} {pubkey : String}
    {t : Int} {row : InstanceInfo F}
    (h : first announced.rank versions (due pubkey t) = some row) :
    Latest announced (named versions pubkey) t row := by
  obtain ⟨hmem, hdue⟩ := first_mem h
  obtain ⟨hpubkey, hat, hfee⟩ := due_eq_true.mp hdue
  refine ⟨⟨hmem, hpubkey, hfee⟩, hat, ?_⟩
  rintro w ⟨⟨k, hk⟩, hw⟩ hwt
  exact first_le h hk (due_eq_true.mpr ⟨hw.1, hwt, hw.2⟩)

theorem first_of_latest {versions : Table String (InstanceInfo F)} (hfiled : Filed versions)
    {pubkey : String} {t : Int} {row : InstanceInfo F}
    (h : Latest announced (named versions pubkey) t row) :
    first announced.rank versions (due pubkey t) = some row := by
  obtain ⟨⟨⟨k, hk⟩, hpubkey, hfee⟩, hat, -⟩ := id h
  cases hf : first announced.rank versions (due pubkey t) with
  | none =>
      have hno := (first_eq_none_iff _).mp hf k row hk
      rw [due_eq_true.mpr ⟨hpubkey, hat, hfee⟩] at hno
      exact nomatch hno
  | some w => rw [(latest_of_first hf).unique (rank_injOn hfiled pubkey) h]

/-- **THE TWO LOOKUPS AGREE IFF THE TWO HISTORIES DO.** -/
theorem feeInForce_agree_iff {kept received : Table String (InstanceInfo F)}
    (hkept : Filed kept) (hreceived : Filed received) {pubkey : String}
    (hsub : named kept pubkey ⊆ named received pubkey) :
    (∀ t, InstanceInfos.feeInForce kept pubkey t
        = InstanceInfos.feeInForce received pubkey t)
      ↔ Agree announced InstanceInfo.fee (named kept pubkey) (named received pubkey) := by
  simp only [feeInForce_eq]
  constructor
  · intro h t w hw
    have ht := h t
    rw [first_of_latest hreceived hw] at ht
    cases hf : first announced.rank kept (due pubkey t) with
    | none =>
        rw [hf] at ht
        exact absurd hw.mem.2.2 (by rw [show w.fee = none from ht.symm]; exact Bool.false_ne_true)
    | some v =>
        rw [hf] at ht
        exact ⟨v, latest_of_first hf, ht⟩
  · intro h t
    cases hf : first announced.rank received (due pubkey t) with
    | some w =>
        obtain ⟨v, hv, hfee⟩ := h t w (latest_of_first hf)
        rw [first_of_latest hkept hv]
        exact hfee
    | none =>
        cases hk : first announced.rank kept (due pubkey t) with
        | none => rfl
        | some v =>
            -- A kept version was received: the full history has an answer too.
            have hv := latest_of_first hk
            obtain ⟨⟨k, hk⟩, hpubkey, hfee⟩ := hsub hv.mem
            have hno := (first_eq_none_iff _).mp hf k v hk
            rw [due_eq_true.mpr ⟨hpubkey, hv.due, hfee⟩] at hno
            exact nomatch hno

/-! ## One version more -/

theorem named_put {versions : Table String (InstanceInfo F)} {pubkey k : String}
    {row : InstanceInfo F} (hk : versions[k]? = none ∨ versions[k]? = some row)
    (hpubkey : row.pubkey = pubkey) (hfee : row.fee.isSome = true) :
    named (put versions k (some row)) pubkey = insert row (named versions pubkey) := by
  ext w
  constructor
  · rintro ⟨⟨a, ha⟩, hw⟩
    rcases getElem?_put_eq_some.mp ha with hold | ⟨-, -, hnew⟩
    · exact Or.inr ⟨⟨a, hold⟩, hw⟩
    · exact Or.inl (Option.some.inj hnew).symm
  · rintro (rfl | ⟨⟨a, ha⟩, hw⟩)
    · refine ⟨⟨k, getElem?_put_eq_some.mpr ?_⟩, hpubkey, hfee⟩
      rcases hk with hnone | hsome
      · exact Or.inr ⟨hnone, rfl, rfl⟩
      · exact Or.inl hsome
    · exact ⟨⟨a, getElem?_put_eq_some.mpr (Or.inl ha)⟩, hw⟩

/-- A version of someone else, or one that names no fee, is not looked up. -/
theorem named_put_of_not {versions : Table String (InstanceInfo F)} {pubkey k : String}
    {row : Option (InstanceInfo F)}
    (h : ∀ v, row = some v → v.pubkey = pubkey → v.fee.isSome = false) :
    named (put versions k row) pubkey = named versions pubkey := by
  ext w
  constructor
  · rintro ⟨⟨a, ha⟩, hw⟩
    rcases getElem?_put_eq_some.mp ha with hold | ⟨-, -, hnew⟩
    · exact ⟨⟨a, hold⟩, hw⟩
    · rw [h w hnew hw.1] at hw
      exact absurd hw.2 Bool.false_ne_true
  · rintro ⟨⟨a, ha⟩, hw⟩
    exact ⟨⟨a, getElem?_put_eq_some.mpr (Or.inl ha)⟩, hw⟩

/-! ## What both histories hold -/

/-- The two histories after the same calls. -/
structure Histories (X : Externals F) (P : Policy) (db : Db F)
    (received : Table String (InstanceInfo F)) : Prop where
  settled : Settled X db
  admitted : ∀ (k : String) r, db.events[k]? = some r → admission X P r.rawJson = none
  source : ∀ (k : String) row, received[k]? = some row →
    ∃ e, admission X P e = none ∧ e.id = k ∧ readInfo X e = some row
  kept : ∀ (k : String) row, db.instanceInfo[k]? = some row → received[k]? = some row

namespace Histories

variable {db : Db F} {received : Table String (InstanceInfo F)}

theorem filed (h : Histories X P db received) : Filed received := by
  intro k row hk
  obtain ⟨e, -, rfl, hread⟩ := h.source k row hk
  exact (readInfo_origin hread).1

theorem filed_kept (h : Histories X P db received) : Filed db.instanceInfo :=
  fun k row hk => h.filed k row (h.kept k row hk)

theorem subset (h : Histories X P db received) (pubkey : String) :
    named db.instanceInfo pubkey ⊆ named received pubkey := by
  rintro row ⟨⟨k, hk⟩, hrow⟩
  exact ⟨⟨k, h.kept k row hk⟩, hrow⟩

/-- Two admitted events with one id are one version. -/
theorem read_unique {e e' : Event} (he : admission X P e = none) (he' : admission X P e' = none)
    (hid : e.id = e'.id) : readInfo X e = readInfo X e' := by
  rw [readInfo, readInfo, parse_eq_of_id (verify_of_admission he) (verify_of_admission he') hid]

/-- A version already received is the one being received. -/
theorem received_of (h : Histories X P db received) {e : Event} {row : InstanceInfo F}
    (he : admission X P e = none) (hread : readInfo X e = some row) :
    received[e.id]? = none ∨ received[e.id]? = some row := by
  cases hk : received[e.id]? with
  | none => exact Or.inl rfl
  | some old =>
      obtain ⟨e', he', hid, hread'⟩ := h.source _ old hk
      rw [read_unique he' he hid, hread] at hread'
      exact Or.inr hread'.symm

/-- A version already archived is kept. -/
theorem kept_of (h : Histories X P db received) {e : Event} {row : InstanceInfo F}
    {r : EventRecord} (he : admission X P e = none) (hread : readInfo X e = some row)
    (hk : db.events[e.id]? = some r) : db.instanceInfo[e.id]? = some row := by
  refine h.settled.tables.instanceInfo.complete _ r row hk ?_ id
  rw [read_unique (h.admitted _ r hk) he (h.settled.tables.rawJson_id hk), hread]

/-- **STEP**: both histories grow by what the call brings. -/
theorem step (h : Histories X P db received) (c : Call) :
    Histories X P (ingest X P c db).2 (receive X P received c) := by
  have hset := ingest_settled (P := P) c h.settled
  refine ⟨hset, ?_, ?_, ?_⟩
  · intro k r hk
    rcases ingest_events_cases hk with hold | ⟨harch, -, rfl⟩
    · exact h.admitted k r hold
    · exact admission_of_archives harch
  · intro k row hk
    rw [receive] at hk
    cases ha : admission X P c.event with
    | some rejection =>
        rw [ha] at hk
        exact h.source k row hk
    | none =>
        rw [ha] at hk
        rcases getElem?_put_eq_some.mp hk with hold | ⟨-, rfl, hread⟩
        · exact h.source k row hold
        · exact ⟨c.event, ha, rfl, hread⟩
  · intro k row hk
    obtain ⟨r, hr, hread⟩ := hset.tables.instanceInfo.sound k row hk
    rw [receive]
    rcases ingest_events_cases hr with hold | ⟨harch, rfl, rfl⟩
    · have hin := h.kept k row
        (h.settled.tables.instanceInfo.complete k r row hold hread id)
      split
      · exact getElem?_put_eq_some.mpr (Or.inl hin)
      · exact hin
    · have ha := admission_of_archives harch
      rw [ha]
      refine getElem?_put_eq_some.mpr ?_
      rcases h.received_of ha hread with hnone | hsome
      · exact Or.inr ⟨hnone, rfl, hread⟩
      · exact Or.inl hsome

end Histories

theorem histories (X : Externals F) (P : Policy) (calls : List Call) :
    Histories X P (ingestAll X P calls Db.empty) (everyVersion X P calls) := by
  induction calls using List.reverseRecOn with
  | nil =>
      exact ⟨settled_empty, fun _ _ h => (nomatch h), fun _ _ h => (nomatch h),
        fun _ _ h => (nomatch h)⟩
  | append_singleton calls c ih =>
      rw [ingestAll, everyVersion, List.foldl_append, List.foldl_append]
      exact ih.step c

/-! ## Step: what one call does to the agreement -/

section Step

variable {db : Db F} {received : Table String (InstanceInfo F)} {pubkey : String}

/-- A call that brings no fee of `pubkey` changes neither lookup. -/
theorem named_step_of_not {c : Call}
    (h : ∀ v, admission X P c.event = none → readInfo X c.event = some v →
      v.pubkey = pubkey → v.fee.isSome = false) :
    named (ingest X P c db).2.instanceInfo pubkey = named db.instanceInfo pubkey
      ∧ named (receive X P received c) pubkey = named received pubkey := by
  refine ⟨?_, ?_⟩
  · obtain ⟨outcome, db', heq, hcases⟩ := ingest_cases X P c db
    rw [heq]
    cases hcases with
    | turnedAway _ => rfl
    | unread _ _ => rfl
    | redundant _ _ _ => rfl
    | duplicate _ _ _ _ => rfl
    | stored hadm hp _ _ =>
        have hput := (persisted hp { db with
          events := db.events.insertIfNew c.event.id c.record }).instanceInfo
        show named (persist X c.event _ _).instanceInfo pubkey = _
        rw [hput]
        exact named_put_of_not fun v hv => h v hadm.admission hv
  · rw [receive]
    cases ha : admission X P c.event with
    | some rejection => rfl
    | none => exact named_put_of_not fun v hv => h v ha hv

/-- A version archived before covers itself. -/
theorem covers_self {e : Event} {row : InstanceInfo F} {r : EventRecord}
    (h : Histories X P db received) (he : admission X P e = none)
    (hread : readInfo X e = some row) (hpubkey : row.pubkey = pubkey)
    (hfee : row.fee.isSome = true) (hk : db.events[e.id]? = some r) :
    Covers announced InstanceInfo.fee (named db.instanceInfo pubkey) row row :=
  ⟨⟨⟨e.id, h.kept_of he hread hk⟩, hpubkey, hfee⟩, le_refl _, rfl, fun _ _ hle => hle⟩

/-- **A REDUNDANT VERSION IS COVERED** by the one it repeats. -/
theorem covers_previous {e : Event} {row : InstanceInfo F} {record : EventRecord}
    (h : Histories X P db received) (hread : readInfo X e = some row)
    (hpubkey : row.pubkey = pubkey) (hfee : row.fee.isSome = true)
    (hnew : db.events[e.id]? = none) (hprev : Heartbeats.previous e db = some record)
    (hsame : Heartbeats.sameTags record.rawJson e = true) :
    ∃ v, Covers announced InstanceInfo.fee (named db.instanceInfo pubkey) v row := by
  obtain ⟨hid, hpub, hat⟩ := readInfo_origin hread
  obtain ⟨hkind, hd⟩ := dTag_of_readInfo hread
  obtain ⟨⟨k, hk⟩, hsel⟩ := first_mem hprev
  obtain ⟨-, hrecord⟩ := h.settled.tables.keyed k record hk
  simp only [Bool.and_eq_true, beq_iff_eq, decide_eq_true_iff] at hsel
  obtain ⟨⟨⟨⟨hsp, hsk⟩, -⟩, hst⟩, -⟩ := hsel
  have hrp : record.rawJson.pubkey = e.pubkey := by rw [← hsp, hrecord]; rfl
  have hrk : record.rawJson.kind = e.kind := by rw [← hsk, hrecord]; rfl
  have hrt : record.rawJson.at = record.createdAt := by rw [hrecord]; rfl
  have hri : record.rawJson.id = record.id := by rw [hrecord]; rfl
  have hrread := readInfo_of_sameTags hrk hrp hsame hread
  have hin := h.settled.tables.instanceInfo.complete k record _ hk hrread id
  refine ⟨_, ⟨⟨k, hin⟩, hpubkey, hfee⟩, ?_, rfl, ?_⟩
  · show record.rawJson.at ≤ row.createdAt
    rw [hrt, hat]
    exact hst
  · rintro w ⟨⟨a, ha⟩, hw⟩ hle
    -- A kept version no later than `e` was a candidate for `previous`.
    obtain ⟨r, hr, hwread⟩ := h.settled.tables.instanceInfo.sound a w ha
    obtain ⟨hkey, hrnew⟩ := h.settled.tables.keyed a r hr
    obtain ⟨hwid, hwpub, hwat⟩ := readInfo_origin hwread
    obtain ⟨hwkind, hwd⟩ := dTag_of_readInfo hwread
    have hne : r.id ≠ e.id := by
      rintro heq
      rw [hkey] at heq
      rw [heq, hnew] at hr
      exact nomatch hr
    have hpubs : r.rawJson.pubkey = e.pubkey := by rw [← hwpub, hw.1, ← hpubkey, hpub]
    have hwt : r.rawJson.at ≤ e.at := by
      rw [← hwat, ← hat]
      exact announced.stamp_le hle
    have hfirst : descAsc EventRecord.createdAt EventRecord.id record
        ≤ descAsc EventRecord.createdAt EventRecord.id r := by
      refine first_le hprev hr ?_
      rw [hrnew] at hne ⊢
      simp only [Bool.and_eq_true, beq_iff_eq, decide_eq_true_iff, bne_iff_ne]
      exact ⟨⟨⟨⟨hpubs, hwkind.trans hkind.symm⟩, by
        show dTag r.rawJson = _
        rw [hwd, hd, hpubs]⟩, hwt⟩, hne⟩
    rw [descAsc_le_iff] at hfirst
    show descAsc _ _ _ ≤ descAsc _ _ w
    rw [descAsc_le_iff]
    show w.createdAt < record.rawJson.at
      ∨ record.rawJson.at = w.createdAt ∧ record.rawJson.id ≤ w.eventId
    rw [hwat, hwid, hrt, hri]
    rw [hrnew] at hfirst
    exact hfirst

/-- A version that names a fee is kept, or something kept covers it. -/
theorem kept_or_covered {c : Call} {row : InstanceInfo F} (h : Histories X P db received)
    (ha : admission X P c.event = none) (hread : readInfo X c.event = some row)
    (hpubkey : row.pubkey = pubkey) (hfee : row.fee.isSome = true) :
    named (ingest X P c db).2.instanceInfo pubkey
        = insert row (named db.instanceInfo pubkey)
      ∨ named (ingest X P c db).2.instanceInfo pubkey = named db.instanceInfo pubkey
        ∧ ∃ v, Covers announced InstanceInfo.fee (named db.instanceInfo pubkey) v row := by
  obtain ⟨info, hinfo, -⟩ := readInfo_eq_some.mp hread
  obtain ⟨outcome, db', heq, hcases⟩ := ingest_cases X P c db
  rw [heq]
  cases hcases with
  | turnedAway hno =>
      refine absurd ⟨ha, ?_⟩ hno
      rw [vouchedFor, (dTag_of_readInfo hread).1]
      rfl
  | unread _ hp => cases hp.symm.trans hinfo
  | duplicate _ _ _ hk =>
      exact Or.inr ⟨rfl, row, covers_self h ha hread hpubkey hfee hk⟩
  | redundant _ hp hr =>
      -- What is dropped is covered by itself, archived before, or by what it repeats.
      refine Or.inr ⟨rfl, ?_⟩
      cases hk : db.events[c.event.id]? with
      | some r => exact ⟨row, covers_self h ha hread hpubkey hfee hk⟩
      | none =>
          cases hp.symm.trans hinfo
          rw [parsedHeartbeat, Heartbeats.isRedundant] at hr
          cases hprev : Heartbeats.previous c.event db with
          | none =>
              rw [hprev] at hr
              cases hr
          | some record =>
              rw [hprev] at hr
              exact covers_previous h hread hpubkey hfee hk hprev
                (Bool.and_eq_true_iff.mp hr).2
  | @stored parsed _ hp _ hk =>
      refine Or.inl ?_
      have hput := (persisted hp { db with
        events := db.events.insertIfNew c.event.id c.record }).instanceInfo
      have hnone : db.instanceInfo[c.event.id]? = none := by
        cases hold : db.instanceInfo[c.event.id]? with
        | none => rfl
        | some old =>
            obtain ⟨r, hr, -⟩ := h.settled.tables.instanceInfo.sound _ old hold
            cases hk.symm.trans hr
      show named (persist X c.event parsed _).instanceInfo pubkey = _
      rw [hput, hread]
      exact named_put (Or.inl hnone) hpubkey hfee

/-- **STEP**: two histories that agree go on agreeing exactly when the call is
    on time. -/
theorem agree_step_iff (h : Histories X P db received) (c : Call)
    (hagree : Agree announced InstanceInfo.fee (named db.instanceInfo pubkey)
      (named received pubkey)) :
    Agree announced InstanceInfo.fee (named (ingest X P c db).2.instanceInfo pubkey)
        (named (receive X P received c) pubkey)
      ↔ ∀ row, admission X P c.event = none → readInfo X c.event = some row →
          row.pubkey = pubkey → row.fee.isSome = true →
          Timely announced InstanceInfo.fee (named db.instanceInfo pubkey)
            (named received pubkey) row := by
  by_cases hbrings : ∃ row, admission X P c.event = none ∧ readInfo X c.event = some row
      ∧ row.pubkey = pubkey ∧ row.fee.isSome = true
  · obtain ⟨row, ha, hread, hpubkey, hfee⟩ := hbrings
    have hreceived : named (receive X P received c) pubkey
        = insert row (named received pubkey) := by
      rw [receive, ha, hread]
      exact named_put (h.received_of ha hread) hpubkey hfee
    have hinj := rank_injOn (h.step c).filed_kept pubkey
    have hiff : Agree announced InstanceInfo.fee
          (named (ingest X P c db).2.instanceInfo pubkey)
          (named (receive X P received c) pubkey)
        ↔ Timely announced InstanceInfo.fee (named db.instanceInfo pubkey)
          (named received pubkey) row := by
      rw [hreceived]
      rcases kept_or_covered h ha hread hpubkey hfee with hkept | ⟨hkept, v, hv⟩
      · rw [hkept] at hinj ⊢
        exact Agree.insert_iff (h.subset pubkey) hinj hagree
      · rw [hkept] at hinj ⊢
        exact iff_of_true (hagree.drop (h.subset pubkey) hv) (hv.timely hinj hagree)
    rw [hiff]
    refine ⟨?_, fun hall => hall row ha hread hpubkey hfee⟩
    rintro htimely row' - hread' - -
    cases hread.symm.trans hread'
    exact htimely
  · -- A call that brings nothing of this publisher leaves both histories as they are.
    have hquiet : ∀ v, admission X P c.event = none → readInfo X c.event = some v →
        v.pubkey = pubkey → v.fee.isSome = false :=
      fun v ha hread hpubkey => Bool.eq_false_iff.mpr
        fun hfee => hbrings ⟨v, ha, hread, hpubkey, hfee⟩
    have hstep : named (ingest X P c db).2.instanceInfo pubkey
          = named db.instanceInfo pubkey
        ∧ named (receive X P received c) pubkey = named received pubkey :=
      named_step_of_not hquiet
    obtain ⟨hkept, hreceived⟩ := hstep
    rw [hkept, hreceived]
    refine iff_of_true hagree fun row ha hread hpubkey hfee => ?_
    exact absurd ⟨row, ha, hread, hpubkey, hfee⟩ hbrings

end Step

/-! ## Run: every history -/

theorem sameFee_iff_agree (pubkey : String) (calls : List Call) :
    SameFee X P pubkey calls
      ↔ Agree announced InstanceInfo.fee (named (keptVersions X P calls) pubkey)
          (named (everyVersion X P calls) pubkey) :=
  feeInForce_agree_iff (histories X P calls).filed_kept (histories X P calls).filed
    ((histories X P calls).subset pubkey)

theorem sameFee_nil (pubkey : String) : SameFee X P pubkey [] := fun _ => rfl

theorem sameFee_append_iff {pubkey : String} {calls : List Call} (c : Call)
    (h : SameFee X P pubkey calls) :
    SameFee X P pubkey (calls ++ [c]) ↔ OnTime X P pubkey calls c := by
  have hkept : keptVersions X P (calls ++ [c])
      = (ingest X P c (ingestAll X P calls Db.empty)).2.instanceInfo := by
    rw [keptVersions, ingestAll, List.foldl_append]
    rfl
  have hevery : everyVersion X P (calls ++ [c]) = receive X P (everyVersion X P calls) c := by
    rw [everyVersion, List.foldl_append]
    rfl
  rw [sameFee_iff_agree, hkept, hevery]
  exact agree_step_iff (histories X P calls) c ((sameFee_iff_agree pubkey calls).mp h)

/-- **THINNING KEEPS THE FEE EXACTLY WHEN NO FEE COMES LATE**: whatever is
    ingested in whatever order, the fee in force is the one the full history
    names, at every instant and after every call, iff every call is on time. -/
theorem fee_in_force_iff_on_time (X : Externals F) (P : Policy) (pubkey : String)
    (calls : List Call) :
    (∀ done, done <+: calls → SameFee X P pubkey done)
      ↔ ∀ done c, done ++ [c] <+: calls → OnTime X P pubkey done c := by
  constructor
  · intro h done c hdone
    have hbefore := h done ((List.prefix_append done [c]).trans hdone)
    exact (sameFee_append_iff c hbefore).mp (h _ hdone)
  · intro h done
    induction done using List.reverseRecOn with
    | nil => exact fun _ => sameFee_nil pubkey
    | append_singleton done c ih =>
        intro hdone
        have hbefore := ih ((List.prefix_append done [c]).trans hdone)
        exact (sameFee_append_iff c hbefore).mpr (h done c hdone)

/-! ## A fee that comes late -/

/-- An instance's self-description, naming its fee. -/
def infoEvent (id pubkey : String) (createdAt : UInt64) (fee : String) : Event where
  id := id
  pubkey := pubkey
  createdAt := createdAt
  kind := infoKind
  tags := [["d", pubkey], ["y", "mostro"], ["fee", fee]]
  content := ""
  sig := ""

/-- The fee first published. -/
def firstInfo : Event :=
  infoEvent "3000000000000000000000000000000000000000000000000000000000000001"
    Convergence.alice 1785600000 "0"

/-- The fee it was changed to an hour later. -/
def changedInfo : Event :=
  infoEvent "3000000000000000000000000000000000000000000000000000000000000002"
    Convergence.alice 1785603600 "1"

/-- The change taken back another hour later. -/
def revertedInfo : Event :=
  infoEvent "3000000000000000000000000000000000000000000000000000000000000003"
    Convergence.alice 1785607200 "0"

def feeHistory : Externals Int :=
  Externals.over [firstInfo, changedInfo, revertedInfo] (by decide) []

/-- The change reaches the indexer last. -/
def changedLast : List Call :=
  [⟨firstInfo, "wss://a", 1785610000⟩, ⟨revertedInfo, "wss://a", 1785610001⟩,
    ⟨changedInfo, "wss://b", 1785610002⟩]

/-- **A LATE CHANGE STAYS IN FORCE**: the fee was taken back, the version that
    said so was dropped as a repeat of the first, and the change then arrives. -/
theorem late_change_stays_in_force :
    (∀ c ∈ changedLast, admission feeHistory Convergence.openPolicy c.event = none
        ∧ c.event.kind = infoKind ∧ c.event.pubkey = Convergence.alice
        ∧ dTag c.event = some Convergence.alice) ∧
      (changedLast.map fun c => c.event.id).Nodup ∧
      InstanceInfos.feeInForce
          (keptVersions feeHistory Convergence.openPolicy changedLast)
          Convergence.alice 1785607200 = some 1 ∧
      InstanceInfos.feeInForce
          (everyVersion feeHistory Convergence.openPolicy changedLast)
          Convergence.alice 1785607200 = some 0 ∧
      ¬ SameFee feeHistory Convergence.openPolicy Convergence.alice changedLast := by
  have hkept : InstanceInfos.feeInForce
      (keptVersions feeHistory Convergence.openPolicy changedLast)
      Convergence.alice 1785607200 = some 1 := by decide +kernel
  have hevery : InstanceInfos.feeInForce
      (everyVersion feeHistory Convergence.openPolicy changedLast)
      Convergence.alice 1785607200 = some 0 := by decide +kernel
  refine ⟨by decide, by decide, hkept, hevery, fun h => ?_⟩
  have hsame := h 1785607200
  rw [hkept, hevery] at hsame
  exact absurd hsame (by decide)

end Retention
