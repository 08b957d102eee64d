import Bestiario.Sync

/-! # A subscription and the present

    The cursor is driven by the publishers' clocks: every event accepted moves
    it to the newest stamp (`SyncState.advance`), and nothing between the event
    and the filter holds that stamp against the wall clock.  A subscription is
    DEAF when the cursor, rewound by the overlap, is still ahead of now: the
    relay is then asked only for what nobody has published yet.

    `heard` are the stamps the cursor is made of.  A subscription hears the
    present exactly when the newest of them is at most the overlap ahead. -/

namespace Sync

open Keyed Wire Parse Repo Pipeline Derived

variable {F : Type} {X : Externals F} {P : Policy}

/-! ## What moves the cursor -/

/-- The call gets as far as step 6: its event is admitted, and parses. -/
def accepted (X : Externals F) (P : Policy) (c : Call) (db : Db F) : Bool :=
  (admission X P c.event).isNone && (vouchedFor P c.event db).isNone
    && (parse X c.event).toOption.isSome

/-- The stamps of the relay and kind among the events accepted. -/
def Follower.heard (X : Externals F) (P : Policy) (S : Follower) (kind : UInt16) :
    List Call → Db F → List Int
  | [], _ => []
  | c :: rest, db =>
      let later := S.heard X P kind rest (ingest X P c db).2
      if S.ours kind c && accepted X P c db then c.event.at :: later else later

/-- What a subscription opened on `db` is sent includes the present. -/
def Follower.Hears (S : Follower) (kind : UInt16) (now : Int) (db : Db F) : Prop :=
  ∀ since, resumeFrom (S.cursor kind db) S.overlap = some since → since ≤ now

/-- `newest` is at most the overlap ahead of `now`.  Below the range of an
    `i64` the rewind comes round at the top, and it is that which must not be
    ahead. -/
def Follower.InSight (S : Follower) (now newest : Int) : Prop :=
  if S.overlap - 2 ^ 63 ≤ newest then newest ≤ now + S.overlap
  else newest + 2 ^ 64 ≤ now + S.overlap

/-! ## The cursor is the newest stamp heard -/

theorem accepted_iff {c : Call} {db : Db F} :
    accepted X P c db = true
      ↔ Admitted X P c.event db ∧ ∃ parsed, parse X c.event = .ok parsed := by
  have hok : (parse X c.event).toOption.isSome = true
      ↔ ∃ parsed, parse X c.event = .ok parsed := by
    cases parse X c.event with
    | error rejection => exact ⟨(fun h => nomatch h), (fun ⟨_, h⟩ => nomatch h)⟩
    | ok parsed => exact ⟨fun _ => ⟨parsed, rfl⟩, fun _ => rfl⟩
  have hadm : (admission X P c.event = none ∧ vouchedFor P c.event db = none)
      ↔ Admitted X P c.event db :=
    ⟨fun h => ⟨h.1, h.2⟩, fun h => ⟨h.admission, h.vouched⟩⟩
  rw [accepted, Bool.and_eq_true, Bool.and_eq_true, hok, Option.isNone_iff_eq_none,
    Option.isNone_iff_eq_none, hadm]

/-- A call whose event is not accepted leaves the cursors where they were. -/
theorem syncState_of_not_accepted {c : Call} {db : Db F} (h : accepted X P c db ≠ true) :
    (ingest X P c db).2.syncState = db.syncState := by
  obtain ⟨outcome, db', heq, hcases⟩ := ingest_cases X P c db
  rw [heq]
  cases hcases with
  | turnedAway _ => rfl
  | unread _ _ => rfl
  | redundant ha hp _ => exact absurd (accepted_iff.mpr ⟨ha, _, hp⟩) h
  | duplicate ha hp _ _ => exact absurd (accepted_iff.mpr ⟨ha, _, hp⟩) h
  | stored ha hp _ _ => exact absurd (accepted_iff.mpr ⟨ha, _, hp⟩) h

/-- **STEP**: one call moves the cursor to its stamp if it is heard and newer. -/
theorem cursor_step (S : Follower) (kind : UInt16) (c : Call) (db : Db F) :
    S.cursor kind (ingest X P c db).2
      = if S.ours kind c && accepted X P c db then
          some (match S.cursor kind db with
            | some old => max old c.event.at
            | none => c.event.at)
        else S.cursor kind db := by
  by_cases hacc : accepted X P c db = true
  · rw [hacc, Bool.and_true, cursor_ingest fun _ => accepted_iff.mp hacc]
    exact cursor_advance S kind c db
  · rw [cursor_congr S kind (syncState_of_not_accepted hacc), if_neg]
    exact fun h => hacc (Bool.and_eq_true_iff.mp h).2

/-- **RUN**: the cursor is the newest stamp heard. -/
theorem cursor_heard (S : Follower) (kind : UInt16) (calls : List Call) {db : Db F}
    {seen : List Int} (hseen : S.cursor kind db = seen.max?) :
    S.cursor kind (ingestAll X P calls db)
      = (seen ++ S.heard X P kind calls db).max? := by
  induction calls generalizing db seen with
  | nil =>
      rw [Follower.heard, List.append_nil]
      exact hseen
  | cons c rest ih =>
      show S.cursor kind (ingestAll X P rest (ingest X P c db).2) = _
      have hstep := cursor_step (X := X) (P := P) S kind c db
      rw [Follower.heard]
      by_cases hours : (S.ours kind c && accepted X P c db) = true
      · rw [if_pos hours, hseen] at hstep
        rw [ih (hstep.trans (max?_concat seen c.event.at).symm), if_pos hours,
          List.append_assoc, List.singleton_append]
      · rw [if_neg hours, hseen] at hstep
        rw [ih hstep, if_neg hours]

theorem heard_fits {S : Follower} {kind : UInt16} {calls : List Call} {db : Db F}
    {stamp : Int} (h : stamp ∈ S.heard X P kind calls db) :
    -2 ^ 63 ≤ stamp ∧ stamp < 2 ^ 63 := by
  induction calls generalizing db with
  | nil => exact nomatch h
  | cons c rest ih =>
      rw [Follower.heard] at h
      split at h
      · rcases List.mem_cons.mp h with rfl | h
        · exact asI64_fits c.event.createdAt
        · exact ih h
      · exact ih h

/-! ## The result -/

/-- The rewind of one stamp, and where it comes out. -/
theorem resumeFrom_le_iff {S : Follower} {now newest : Int} (hoverlap : 0 ≤ S.overlap)
    (hfits : S.overlap < 2 ^ 63) (hlo : -2 ^ 63 ≤ newest) (hhi : newest < 2 ^ 63) :
    max (wrapI64 (newest - S.overlap)) 0 ≤ now ↔ 0 ≤ now ∧ S.InSight now newest := by
  rw [Follower.InSight, max_le_iff, and_comm]
  refine and_congr_right fun _ => ?_
  by_cases hin : S.overlap - 2 ^ 63 ≤ newest
  · rw [if_pos hin, wrapI64_of_fits (by omega) (by omega)]
    omega
  · rw [if_neg hin, wrapI64_of_under (by omega) (by omega)]
    omega

/-- An event stamped now is asked for, if the filter narrows to it at all. -/
theorem asks_now {S : Follower} {kind : UInt16} {now : Int} {db : Db F}
    (h : S.Hears kind now db) {e : Event} (hstamp : (e.createdAt.toNat : Int) = now)
    (haddr : S.Addressed kind db e) : S.Asks kind db e := by
  refine (asks_iff S kind db e).mpr ⟨haddr, fun cursor hcursor => ?_⟩
  have hsince := h _ (by rw [resumeFrom, hcursor]; rfl)
  rw [hstamp]
  exact le_trans (le_max_left _ _) hsince

/-- **A SUBSCRIPTION HEARS THE PRESENT EXACTLY WHEN NO STAMP IS OUT OF SIGHT.**
    After any calls at all, the relay is asked for what is published now iff the
    newest stamp it has had accepted is at most the overlap ahead of now. -/
theorem hears_iff_in_sight (S : Follower) (kind : UInt16) (calls : List Call) (now : Int)
    (hoverlap : 0 ≤ S.overlap) (hfits : S.overlap < 2 ^ 63) :
    (S.Hears kind now (ingestAll X P calls (Db.empty : Db F))
      ↔ ∀ newest, (S.heard X P kind calls Db.empty).max? = some newest →
        0 ≤ now ∧ S.InSight now newest)
    ∧ (S.Hears kind now (ingestAll X P calls (Db.empty : Db F)) →
      ∀ e : Event, (e.createdAt.toNat : Int) = now →
        S.Addressed kind (ingestAll X P calls Db.empty) e →
        S.Asks kind (ingestAll X P calls Db.empty) e) := by
  refine ⟨?_, fun hhears e hstamp haddr => asks_now hhears hstamp haddr⟩
  have hcursor : S.cursor kind (ingestAll X P calls (Db.empty : Db F))
      = (S.heard X P kind calls Db.empty).max? :=
    cursor_heard S kind calls (show S.cursor kind Db.empty = ([] : List Int).max? from rfl)
  rw [Follower.Hears, hcursor]
  cases hmax : (S.heard X P kind calls Db.empty).max? with
  | none => simp [resumeFrom]
  | some newest =>
      obtain ⟨hlo, hhi⟩ := heard_fits (List.max?_mem hmax)
      rw [resumeFrom]
      simp only [Option.map_some, Option.some.injEq, forall_eq']
      exact resumeFrom_le_iff hoverlap hfits hlo hhi

/-! ## A clock two hours fast -/

/-- The order the relay sends, at the second the next one is published. -/
def fastCall : Call := ⟨lateOrder, "wss://a", 1785600000⟩

/-- A day's rewind still reaches the present. -/
theorem day_of_overlap_hears :
    (follower 86400).Hears orderKind 1785600000
      (ingestAll twoOrders Convergence.openPolicy [fastCall] Db.empty) :=
  (hears_iff_in_sight (follower 86400) orderKind [fastCall] 1785600000
    (by decide) (by decide)).1.mpr (by
      intro newest hnewest
      have hheard : (follower 86400).heard twoOrders Convergence.openPolicy orderKind
          [fastCall] Db.empty = [1785607200] := by decide +kernel
      rw [hheard] at hnewest
      cases hnewest
      refine ⟨by decide, ?_⟩
      rw [Follower.InSight]
      decide)

/-- **DEAF**: one order stamped two hours ahead, and an hour's rewind asks for
    nothing published before then; the order published now is not asked for. -/
theorem hour_of_overlap_deaf :
    fastCall.now ≤ 1785600000 ∧ Convergence.pendingOrder.createdAt.toNat = 1785600000 ∧
      ¬ (follower 3600).Hears orderKind 1785600000
        (ingestAll twoOrders Convergence.openPolicy [fastCall] Db.empty) ∧
      ¬ (follower 3600).Asks orderKind
        (ingestAll twoOrders Convergence.openPolicy [fastCall] Db.empty)
        Convergence.pendingOrder := by
  have hcursor : (follower 3600).cursor orderKind
      (ingestAll twoOrders Convergence.openPolicy [fastCall] Db.empty)
      = some 1785607200 := by decide +kernel
  refine ⟨by decide, rfl, fun hhears => ?_, fun hasks => ?_⟩
  · have hsince := hhears 1785603600 (by rw [resumeFrom, hcursor]; rfl)
    exact absurd hsince (by decide)
  · have hsince := ((asks_iff _ _ _ _).mp hasks).2 _ hcursor
    exact absurd hsince (by decide)

end Sync
