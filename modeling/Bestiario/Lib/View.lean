import Bestiario.Lib.Table

/-! # Views of a keyed log

    A LOG is a table of records that only grows.  A VIEW reads each record and
    keeps a row under the same key when there is one to keep.  A PROJECTION
    keeps one row per group of a view, recomputed rather than patched.

    Both are allowed to lag behind: `owed` names the keys still to be written.
    A view that owes nothing is a function of the log (`Tracks.unique`), and a
    projection that owes nothing is a function of the view (`Current.unique`).
    What moves the debt is small enough to list: appending to the log adds a
    key to it, writing a row or refreshing a group removes one, emptying the
    table owes everything. -/

set_option linter.unusedSectionVars false

namespace Keyed

variable {K R V : Type} [Ord K] [Std.TransOrd K] [Std.LawfulEqOrd K] [DecidableEq K]

/-- Store a row when there is one; a key already taken is left alone. -/
def put (t : Table K V) (k : K) (v : Option V) : Table K V :=
  match v with
  | some v => t.insertIfNew k v
  | none => t

theorem getElem?_put_eq_some {t : Table K V} {k a : K} {v : Option V} {w : V} :
    (put t k v)[a]? = some w ↔ t[a]? = some w ∨ t[k]? = none ∧ a = k ∧ v = some w := by
  cases v with
  | none => simp [put]
  | some v =>
      rw [put, getElem?_insertIfNew_eq_some, Option.some.injEq]
      simp only [eq_comm]

/-- `view` holds `read` of the log, except for the keys still owed. -/
structure Tracks (read : R → Option V) (log : Table K R) (view : Table K V)
    (owed : K → Prop) : Prop where
  sound : ∀ (k : K) v, view[k]? = some v → ∃ r, log[k]? = some r ∧ read r = some v
  complete : ∀ (k : K) r v, log[k]? = some r → read r = some v → ¬ owed k →
    view[k]? = some v

namespace Tracks

variable {read : R → Option V} {log : Table K R} {view view' : Table K V}
  {owed owed' : K → Prop}

theorem mono (h : Tracks read log view owed) (hle : ∀ k, owed k → owed' k) :
    Tracks read log view owed' :=
  ⟨h.sound, fun k r v hk hr ho => h.complete k r v hk hr (fun h' => ho (hle k h'))⟩

/-- A view that owes nothing answers every lookup from the log. -/
theorem getElem?_eq (h : Tracks read log view fun _ => False) (k : K) :
    view[k]? = (log[k]?).bind read := by
  cases hv : view[k]? with
  | some v =>
      obtain ⟨r, hr, hread⟩ := h.sound k v hv
      rw [hr]
      exact hread.symm
  | none =>
      cases hr : log[k]? with
      | none => rfl
      | some r =>
          cases hread : read r with
          | none => exact hread.symm
          | some v =>
              rw [h.complete k r v hr hread not_false] at hv
              exact nomatch hv

/-- Reading the log whole is a view that owes nothing. -/
theorem eq_filterMap (h : Tracks read log view fun _ => False) :
    view = log.filterMap fun _ => read := by
  refine ext (fun k => ?_)
  rw [h.getElem?_eq k, Std.ExtTreeMap.getElem?_filterMap']

/-- **A VIEW THAT OWES NOTHING IS A FUNCTION OF ITS LOG.** -/
theorem unique (h : Tracks read log view fun _ => False)
    (h' : Tracks read log view' fun _ => False) : view = view' :=
  ext (fun k => by rw [h.getElem?_eq k, h'.getElem?_eq k])

/-- An empty view is owed everything. -/
theorem empty (read : R → Option V) (log : Table K R) :
    Tracks read log ∅ fun _ => True :=
  ⟨fun _ _ hk => (nomatch hk), fun _ _ _ _ _ ho => absurd trivial ho⟩

/-- Once every key of the log is owed, nothing more is asked of the view. -/
theorem of_all_owed (h : Tracks read log view owed)
    (hall : ∀ (k : K) r, log[k]? = some r → owed' k) : Tracks read log view owed' :=
  ⟨h.sound, fun k r _ hk _ ho => absurd (hall k r hk) ho⟩

/-- A record appended to the log is owed to the view. -/
theorem append {k : K} {r : R} (h : Tracks read log view owed) :
    Tracks read (log.insertIfNew k r) view fun a => owed a ∨ a = k := by
  refine ⟨?_, ?_⟩
  · intro a v hv
    obtain ⟨r', hr', hread⟩ := h.sound a v hv
    refine ⟨r', ?_, hread⟩
    rw [getElem?_insertIfNew_eq, hr']
    by_cases ha : k = a
    · rw [if_pos ha]
      rfl
    · rw [if_neg ha]
  · intro a r' v hr' hread ho
    have hne : k ≠ a := fun ha => ho (Or.inr ha.symm)
    rw [getElem?_insertIfNew_eq, if_neg hne] at hr'
    exact h.complete a r' v hr' hread (fun h' => ho (Or.inl h'))

/-- Writing the row a record reads as settles its key. -/
theorem put {k : K} {r : R} (h : Tracks read log view owed) (hk : log[k]? = some r) :
    Tracks read log (put view k (read r)) fun a => owed a ∧ a ≠ k := by
  cases hread : read r with
  | none =>
      refine ⟨h.sound, ?_⟩
      intro a r' v hr' hread' ho
      refine h.complete a r' v hr' hread' (fun howed => ho ⟨howed, ?_⟩)
      rintro rfl
      rw [hk] at hr'
      cases hr'
      rw [hread] at hread'
      exact nomatch hread'
  | some w =>
      refine ⟨?_, ?_⟩
      · intro a v hv
        rw [Keyed.put, getElem?_insertIfNew_eq] at hv
        by_cases ha : k = a
        · subst ha
          rw [if_pos rfl] at hv
          cases hview : view[k]? with
          | some u =>
              rw [hview] at hv
              exact h.sound k v (hview.trans hv)
          | none =>
              rw [hview] at hv
              cases hv
              exact ⟨r, hk, hread⟩
        · rw [if_neg ha] at hv
          exact h.sound a v hv
      · intro a r' v hr' hread' ho
        rw [Keyed.put, getElem?_insertIfNew_eq]
        by_cases ha : k = a
        · subst ha
          rw [if_pos rfl]
          rw [hk] at hr'
          cases hr'
          rw [hread] at hread'
          cases hread'
          -- A value already there was read from this same record.
          cases hview : view[k]? with
          | some u =>
              obtain ⟨r', hr', hu⟩ := h.sound k u hview
              rw [hk] at hr'
              cases hr'
              rw [hread] at hu
              cases hu
              rfl
          | none => rfl
        · rw [if_neg ha]
          exact h.complete a r' v hr' hread' (fun howed => ho ⟨howed, Ne.symm ha⟩)

end Tracks

/-- Every group's row is the one `target` computes, or is absent and owed. -/
def Current (target : K → Option V) (projection : Table K V) (owed : K → Prop) : Prop :=
  ∀ k : K, projection[k]? = target k ∨ projection[k]? = none ∧ owed k

namespace Current

variable {target target' : K → Option V} {projection projection' : Table K V}
  {owed owed' : K → Prop}

theorem mono (h : Current target projection owed) (hle : ∀ k, owed k → owed' k) :
    Current target projection owed' :=
  fun k => (h k).imp_right (fun hk => ⟨hk.1, hle k hk.2⟩)

theorem getElem?_eq (h : Current target projection fun _ => False) (k : K) :
    projection[k]? = target k :=
  (h k).resolve_right (fun hk => hk.2)

/-- **A PROJECTION THAT OWES NOTHING IS A FUNCTION OF ITS TARGET.** -/
theorem unique (h : Current target projection fun _ => False)
    (h' : Current target projection' fun _ => False) : projection = projection' :=
  ext (fun k => by rw [h.getElem?_eq k, h'.getElem?_eq k])

/-- An empty projection is owed everything. -/
theorem empty (target : K → Option V) : Current target ∅ fun _ => True :=
  fun _ => Or.inr ⟨rfl, trivial⟩

/-- A refresh of group `k` settles it; what happened to the other groups'
    targets meanwhile is nothing. -/
theorem refresh {k : K} (h : Current target projection owed)
    (hframe : ∀ a, a ≠ k → target' a = target a) {row : V} (hrow : target' k = some row) :
    Current target' (projection.insert k row) fun a => owed a ∧ a ≠ k := by
  intro a
  rw [getElem?_insert_eq]
  by_cases ha : k = a
  · subst ha
    rw [if_pos rfl]
    exact Or.inl hrow.symm
  · rw [if_neg ha, hframe a (Ne.symm ha)]
    exact (h a).imp_right (fun hk => ⟨hk.1, hk.2, Ne.symm ha⟩)

/-- A group with nothing to project is settled by having no row. -/
theorem refresh_none {k : K} (h : Current target projection owed)
    (hrow : target k = none) : Current target projection fun a => owed a ∧ a ≠ k := by
  intro a
  rcases h a with heq | ⟨hnone, howed⟩
  · exact Or.inl heq
  · by_cases ha : a = k
    · subst ha
      exact Or.inl (hnone.trans hrow.symm)
    · exact Or.inr ⟨hnone, howed, ha⟩

end Current

/-! ## Grouped projections -/

/-- One row per group of a view, computed from that group's rows alone. -/
structure Projector (K V G P : Type) [Ord K] [Std.TransOrd K] [DecidableEq G] where
  group : V → G
  key : P → G
  project : Table K V → G → Option P
  /-- A group's row reads nothing but the group. -/
  project_congr : ∀ {t t' : Table K V} {g : G},
    rows t (fun v => group v == g) = rows t' (fun v => group v == g) →
    project t g = project t' g
  /-- An empty group has no row, and no other group goes without one. -/
  project_eq_none : ∀ {t : Table K V} {g : G},
    project t g = none ↔ ∀ (k : K) v, t[k]? = some v → (group v == g) = false
  project_key : ∀ {t : Table K V} {g : G} {p : P}, project t g = some p → key p = g

namespace Projector

variable {G P : Type} [Ord G] [Std.TransOrd G] [Std.LawfulEqOrd G] [DecidableEq G]
  (J : Projector K V G P) {projection : Table G P} {owed : G → Prop}

/-- Recompute the row of group `g` and upsert it; no row, no write. -/
def refresh (g : G) (view : Table K V) (projection : Table G P) : Table G P :=
  match J.project view g with
  | some p => projection.insert (J.key p) p
  | none => projection

/-- A refresh settles its group and disturbs no other. -/
theorem refresh_current {view : Table K V} (g : G)
    (h : Current (J.project view) projection owed) :
    Current (J.project view) (J.refresh g view projection)
      fun a => owed a ∧ a ≠ g := by
  rw [refresh]
  cases hp : J.project view g with
  | none => exact h.refresh_none hp
  | some p =>
      dsimp only
      rw [J.project_key hp]
      exact h.refresh (fun _ _ => rfl) hp

/-- **INCREMENTAL = RECOMPUTED**: inserting a row and refreshing its group
    keeps every group current, whatever was there before. -/
theorem insert_refresh_current {view : Table K V} (k : K) (v : V)
    (h : Current (J.project view) projection owed) :
    Current (J.project (view.insertIfNew k v))
      (J.refresh (J.group v) (view.insertIfNew k v) projection) owed := by
  cases hk : view[k]? with
  | some w =>
      -- A known key: the view does not move, so this is a bare refresh.
      rw [insertIfNew_of_some hk]
      exact (J.refresh_current (J.group v) h).mono (fun _ ha => ha.1)
  | none =>
      have hframe : ∀ a, a ≠ J.group v →
          J.project (view.insertIfNew k v) a = J.project view a := by
        intro a ha
        refine J.project_congr (rows_insertIfNew_of_not ?_)
        exact beq_false_of_ne (Ne.symm ha)
      rw [refresh]
      cases hp : J.project (view.insertIfNew k v) (J.group v) with
      | none =>
          have hmem : (view.insertIfNew k v)[k]? = some v := by
            rw [getElem?_insertIfNew_eq, if_pos rfl, hk]
            rfl
          have := J.project_eq_none.mp hp k v hmem
          rw [beq_self_eq_true] at this
          exact nomatch this
      | some p =>
          dsimp only
          rw [J.project_key hp]
          exact (h.refresh hframe hp).mono (fun _ ha => ha.1)

end Projector

end Keyed
