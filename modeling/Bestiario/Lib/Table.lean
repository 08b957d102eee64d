import Mathlib

/-! # Keyed tables

    A relational table with a primary key is a finite map from keys to rows.
    `Std.ExtTreeMap` is that map, extensional and executable: two tables with
    the same rows are EQUAL, whatever the order they were filled in, which is
    what lets "the tables are the same" be an equation.

    On top of it sit the readings SQL makes of a table:

    * `rows` — `SELECT * … WHERE p`, and `rowsBy` with an `ORDER BY key`;
    * `first` — `… ORDER BY key LIMIT 1`;
    * `minimum`, `maximum` — `SELECT MIN(f) …`, `none` when no row has a value;
    * `distinct` — `SELECT DISTINCT f … ORDER BY f`.

    Writing is the map's own `insert` (an upsert), `insertIfNew` (`INSERT OR
    IGNORE`) and `∅` (`DELETE FROM`). -/

set_option linter.unusedSectionVars false

namespace Keyed

/-- A table keyed by `K`. -/
abbrev Table (K V : Type) [Ord K] := Std.ExtTreeMap K V compare

variable {K V : Type} [Ord K] [Std.TransOrd K]

/-- A pair key compares column by column, and equal means equal. -/
instance lexLawful {A B : Type} [Ord A] [Ord B] [Std.LawfulEqOrd A] [Std.LawfulEqOrd B] :
    Std.LawfulEqOrd (A ×ₗ B) where
  eq_of_compare {p q} h := by
    have hcolumns : (compare (ofLex p).1 (ofLex q).1).then
        (compare (ofLex p).2 (ofLex q).2) = .eq := h
    obtain ⟨hfst, hsnd⟩ := Ordering.then_eq_eq.mp hcolumns
    exact Prod.ext (Std.LawfulEqOrd.eq_of_compare hfst) (Std.LawfulEqOrd.eq_of_compare hsnd)
  compare_self {p} := by
    have hcolumns : compare p p = (compare (ofLex p).1 (ofLex p).1).then
        (compare (ofLex p).2 (ofLex p).2) := rfl
    rw [hcolumns, Std.ReflOrd.compare_self, Std.ReflOrd.compare_self]
    rfl

/-- The rows satisfying `p`, in key order. -/
def rows (t : Table K V) (p : V → Bool) : List V :=
  (t.filter fun _ v => p v).toList.map Prod.snd

/-- `ORDER BY key LIMIT 1` over the rows satisfying `p`. -/
def first {β : Type} [LinearOrder β] (key : V → β) (t : Table K V)
    (p : V → Bool) : Option V :=
  (rows t p).argmin key

/-- `SELECT MIN(f)` over the rows satisfying `p`; rows where `f` is `NULL` do
    not take part. -/
def minimum {β : Type} [LinearOrder β] (f : V → Option β) (t : Table K V)
    (p : V → Bool) : Option β :=
  ((rows t p).filterMap f).min?

/-- A minimum once `b` takes part too. -/
def lowered {β : Type} [LinearOrder β] (least : Option β) (b : β) : β :=
  match least with
  | some m => min m b
  | none => b

/-- `SELECT MAX(f)` over the rows satisfying `p`. -/
def maximum {β : Type} [LinearOrder β] (f : V → Option β) (t : Table K V)
    (p : V → Bool) : Option β :=
  ((rows t p).filterMap f).max?

/-- A maximum once `b` takes part too. -/
def raised {β : Type} [LinearOrder β] (greatest : Option β) (b : β) : β :=
  match greatest with
  | some m => max m b
  | none => b

/-- `ORDER BY key` over the rows satisfying `p`. -/
def rowsBy {β : Type} [LinearOrder β] (key : V → β) (t : Table K V)
    (p : V → Bool) : List V :=
  (rows t p).insertionSort fun a b => key a ≤ key b

/-- `SELECT DISTINCT f … ORDER BY f`. -/
def distinct {β : Type} [LinearOrder β] (f : V → β) (t : Table K V) : List β :=
  ((rows t fun _ => true).map f).dedup.insertionSort (· ≤ ·)

/-- `ORDER BY f DESC, g ASC`. -/
def descAsc {α β : Type} (f : V → α) (g : V → β) (v : V) : αᵒᵈ ×ₗ β :=
  toLex (OrderDual.toDual (f v), g v)

/-- A row for each of a list, written one after another: of one key, the last
    stays. -/
def collect {α : Type} (key : α → K) (value : α → V) (list : List α) : Table K V :=
  list.foldl (fun t a => t.insert (key a) (value a)) ∅

/-- `ORDER BY f, g`. -/
def ascAsc {α β : Type} (f : V → α) (g : V → β) (v : V) : α ×ₗ β :=
  toLex (f v, g v)

/-! ## Lookups after a write -/

section Laws

variable [Std.LawfulEqOrd K]

@[simp]
theorem getElem?_insert_eq [DecidableEq K] (t : Table K V) (k a : K) (v : V) :
    (t.insert k v)[a]? = if k = a then some v else t[a]? := by
  rw [Std.ExtTreeMap.getElem?_insert]
  by_cases h : k = a
  · rw [if_pos h, if_pos (Std.LawfulEqCmp.compare_eq_iff_eq.mpr h)]
  · rw [if_neg h, if_neg (fun hc => h (Std.LawfulEqCmp.compare_eq_iff_eq.mp hc))]

@[simp]
theorem getElem?_insertIfNew_eq [DecidableEq K] (t : Table K V) (k a : K) (v : V) :
    (t.insertIfNew k v)[a]? = if k = a then (t[a]?).or (some v) else t[a]? := by
  rw [Std.ExtTreeMap.getElem?_insertIfNew]
  by_cases h : k = a
  · subst h
    rw [if_pos rfl]
    by_cases hk : k ∈ t
    · rw [if_neg (fun hc => hc.2 hk)]
      obtain ⟨v', hv'⟩ := Option.isSome_iff_exists.mp
        (Std.ExtTreeMap.mem_iff_isSome_getElem?.mp hk)
      rw [hv']
      rfl
    · rw [if_pos ⟨Std.LawfulEqCmp.compare_eq_iff_eq.mpr rfl, hk⟩,
        Std.ExtTreeMap.getElem?_eq_none hk]
      rfl
  · rw [if_neg h, if_neg (fun hc => h (Std.LawfulEqCmp.compare_eq_iff_eq.mp hc.1))]

/-- A row after an insert was there before, or is the new one. -/
theorem getElem?_insertIfNew_eq_some [DecidableEq K] {t : Table K V} {k a : K} {v w : V} :
    (t.insertIfNew k v)[a]? = some w
      ↔ t[a]? = some w ∨ t[k]? = none ∧ a = k ∧ w = v := by
  rw [getElem?_insertIfNew_eq]
  by_cases ha : k = a
  · subst ha
    rw [if_pos rfl]
    cases hk : t[k]? with
    | some old => simp
    | none => simp [eq_comm]
  · rw [if_neg ha]
    simp [Ne.symm ha]

/-- Inserting under a key already taken changes nothing. -/
theorem insertIfNew_of_some [DecidableEq K] {t : Table K V} {k : K} {v w : V}
    (h : t[k]? = some w) : t.insertIfNew k v = t := by
  refine Std.ExtTreeMap.ext_getElem? (fun a => ?_)
  rw [getElem?_insertIfNew_eq]
  by_cases ha : k = a
  · subst ha
    rw [if_pos rfl, h]
    rfl
  · rw [if_neg ha]

/-- Two tables with the same lookups are one table. -/
theorem ext {t t' : Table K V} (h : ∀ k : K, t[k]? = t'[k]?) : t = t' :=
  Std.ExtTreeMap.ext_getElem? h

theorem ext_of_iff {t t' : Table K V}
    (h : ∀ (k : K) v, t[k]? = some v ↔ t'[k]? = some v) : t = t' :=
  ext (fun k => Option.ext (h k))

/-! ## A table written from a list -/

section Collect

variable {α : Type} {key : α → K} {value : α → V} {list : List α}

theorem collect_concat (a : α) :
    collect key value (list ++ [a]) = (collect key value list).insert (key a) (value a) := by
  rw [collect, List.foldl_append]
  rfl

/-- A key the list does not have has no row. -/
theorem getElem?_collect_eq_none [DecidableEq K] {k : K} (h : ∀ a ∈ list, key a ≠ k) :
    (collect key value list)[k]? = none := by
  induction list using List.reverseRecOn with
  | nil => exact Std.ExtTreeMap.getElem?_empty
  | append_singleton list a ih =>
      rw [collect_concat, getElem?_insert_eq, if_neg (h a (by simp))]
      exact ih fun b hb => h b (List.mem_append_left _ hb)

/-- A key the list has holds the row of one of its entries. -/
theorem exists_getElem?_collect [DecidableEq K] {k : K} (h : ∃ a ∈ list, key a = k) :
    ∃ a ∈ list, key a = k ∧ (collect key value list)[k]? = some (value a) := by
  induction list using List.reverseRecOn with
  | nil =>
      obtain ⟨a, ha, -⟩ := h
      cases ha
  | append_singleton list a ih =>
      rw [collect_concat, getElem?_insert_eq]
      by_cases hk : key a = k
      · exact ⟨a, by simp, hk, if_pos hk⟩
      · rw [if_neg hk]
        obtain ⟨b, hb, hbk⟩ := h
        have hmem : b ∈ list := by
          rcases List.mem_append.mp hb with hb | hb
          · exact hb
          · exact absurd (List.mem_singleton.mp hb ▸ hbk) hk
        obtain ⟨c, hc, hck, hrow⟩ := ih ⟨b, hmem, hbk⟩
        exact ⟨c, List.mem_append_left _ hc, hck, hrow⟩

end Collect

/-! ## Reading rows -/

theorem mem_rows {t : Table K V} {p : V → Bool} {v : V} :
    v ∈ rows t p ↔ (∃ k : K, t[k]? = some v) ∧ p v = true := by
  constructor
  · intro h
    obtain ⟨⟨k, v'⟩, hmem, heq⟩ := List.mem_map.mp h
    have hv : v' = v := heq
    subst hv
    rw [Std.ExtTreeMap.mem_toList_iff_getElem?_eq_some,
      Std.ExtTreeMap.getElem?_filter'] at hmem
    obtain ⟨hk, hp⟩ := Option.filter_eq_some_iff.mp hmem
    exact ⟨⟨k, hk⟩, hp⟩
  · rintro ⟨⟨k, hk⟩, hp⟩
    refine List.mem_map.mpr ⟨(k, v), ?_, rfl⟩
    rw [Std.ExtTreeMap.mem_toList_iff_getElem?_eq_some,
      Std.ExtTreeMap.getElem?_filter', hk]
    exact Option.filter_eq_some_iff.mpr ⟨rfl, hp⟩

/-- A reading sees only the rows its condition selects. -/
theorem rows_congr {t t' : Table K V} {p : V → Bool}
    (h : ∀ k : K, (t[k]?).filter p = (t'[k]?).filter p) : rows t p = rows t' p := by
  have hf : (t.filter fun _ v => p v) = t'.filter fun _ v => p v := by
    refine ext (fun k => ?_)
    rw [Std.ExtTreeMap.getElem?_filter', Std.ExtTreeMap.getElem?_filter']
    exact h k
  rw [rows, rows, hf]

/-- A narrower reading keeps what it keeps of the wider one. -/
theorem rows_and (t : Table K V) (p q : V → Bool) :
    rows t (fun v => p v && q v) = (rows t p).filter q := by
  rw [rows, rows, Std.ExtTreeMap.toList_filter, Std.ExtTreeMap.toList_filter, List.filter_map,
    List.filter_filter]
  exact congrArg _ (List.filter_congr fun _ _ => Bool.and_comm _ _)

/-- A narrower reading of the same rows is the same. -/
theorem rows_and_congr {t t' : Table K V} {p : V → Bool} (q : V → Bool)
    (h : rows t p = rows t' p) :
    rows t (fun v => p v && q v) = rows t' fun v => p v && q v := by
  rw [rows_and, rows_and, h]

/-- **FRAME**: a row the condition rejects can be inserted unseen. -/
theorem rows_insertIfNew_of_not [DecidableEq K] {t : Table K V} {p : V → Bool} {k : K} {v : V}
    (hv : p v = false) : rows (t.insertIfNew k v) p = rows t p := by
  refine rows_congr (fun a => ?_)
  rw [getElem?_insertIfNew_eq]
  by_cases ha : k = a
  · rw [if_pos ha]
    cases hta : t[a]? with
    | none => simp [hv]
    | some w => rfl
  · rw [if_neg ha]

theorem rows_eq_nil_iff {t : Table K V} {p : V → Bool} :
    rows t p = [] ↔ ∀ (k : K) v, t[k]? = some v → p v = false := by
  constructor
  · intro h k v hk
    cases hp : p v with
    | false => rfl
    | true =>
        have hmem : v ∈ rows t p := mem_rows.mpr ⟨⟨k, hk⟩, hp⟩
        rw [h] at hmem
        exact nomatch hmem
  · intro h
    refine List.eq_nil_iff_forall_not_mem.mpr (fun v hv => ?_)
    obtain ⟨⟨k, hk⟩, hp⟩ := mem_rows.mp hv
    exact Bool.false_ne_true ((h k v hk).symm.trans hp)

theorem mem_distinct {β : Type} [LinearOrder β] {f : V → β} {t : Table K V} {b : β} :
    b ∈ distinct f t ↔ ∃ (k : K) (v : V), t[k]? = some v ∧ f v = b := by
  rw [distinct, List.mem_insertionSort, List.mem_dedup, List.mem_map]
  constructor
  · rintro ⟨v, hv, hf⟩
    obtain ⟨⟨k, hk⟩, -⟩ := mem_rows.mp hv
    exact ⟨k, v, hk, hf⟩
  · rintro ⟨k, v, hk, hf⟩
    exact ⟨v, mem_rows.mpr ⟨⟨k, hk⟩, rfl⟩, hf⟩

theorem rows_map {W : Type} (f : V → W) (t : Table K V) (p : W → Bool) :
    rows (t.map fun _ => f) p = (rows t fun v => p (f v)).map f := by
  have hf : ((t.map fun _ => f).filter fun _ w => p w)
      = (t.filter fun _ v => p (f v)).map fun _ => f := by
    refine ext (fun k => ?_)
    rw [Std.ExtTreeMap.getElem?_filter', Std.ExtTreeMap.getElem?_map,
      Std.ExtTreeMap.getElem?_map, Std.ExtTreeMap.getElem?_filter']
    cases t[k]? with
    | none => rfl
    | some v =>
        cases hp : p (f v) with
        | true => simp [Option.filter, hp]
        | false => simp [Option.filter, hp]
  rw [rows, hf, rows, Std.ExtTreeMap.toList_map, List.map_map, List.map_map]
  rfl

/-! ## `ORDER BY` -/

section OrderBy

variable {β : Type} [LinearOrder β] (key : V → β)

theorem insertionSort_ascending (l : List V) :
    (l.insertionSort fun a b => key a ≤ key b).Pairwise fun a b => key a ≤ key b := by
  have htotal : Std.Total fun a b : V => key a ≤ key b := ⟨fun a b => le_total (key a) (key b)⟩
  have htrans : IsTrans V fun a b => key a ≤ key b := ⟨fun _ _ _ => le_trans⟩
  exact List.pairwise_insertionSort _ l

/-- Inserting in order and narrowing commute. -/
theorem filter_orderedInsert (q : V → Bool) (v : V) {l : List V}
    (h : l.Pairwise fun a b => key a ≤ key b) :
    (l.orderedInsert (fun a b => key a ≤ key b) v).filter q
      = if q v then (l.filter q).orderedInsert (fun a b => key a ≤ key b) v
        else l.filter q := by
  induction l with
  | nil => cases hv : q v <;> simp [hv]
  | cons w rest ih =>
      obtain ⟨hw, hrest⟩ := List.pairwise_cons.mp h
      by_cases hle : key v ≤ key w
      · -- The new element goes first, and stays first of what is kept.
        have hfirst : ∀ kept : List V, (∀ a ∈ kept, key v ≤ key a) →
            kept.orderedInsert (fun a b => key a ≤ key b) v = v :: kept := by
          intro kept hkept
          cases kept with
          | nil => rfl
          | cons a rest =>
              exact List.orderedInsert_cons_of_le _ rest (hkept a List.mem_cons_self)
        have hall : ∀ a ∈ (w :: rest).filter q, key v ≤ key a := by
          intro a ha
          rcases List.mem_cons.mp (List.mem_filter.mp ha).1 with rfl | hmem
          · exact hle
          · exact le_trans hle (hw a hmem)
        rw [List.orderedInsert_cons_of_le _ rest hle, List.filter_cons (x := v), hfirst _ hall]
      · rw [List.orderedInsert_of_not_le _ rest hle, List.filter_cons, ih hrest, List.filter_cons]
        cases q w with
        | true =>
            rw [if_pos rfl, if_pos rfl]
            cases q v with
            | true => exact (List.orderedInsert_of_not_le _ (rest.filter q) hle).symm
            | false => rfl
        | false => rfl

/-- **SORTING AND NARROWING COMMUTE.** -/
theorem insertionSort_filter (q : V → Bool) (l : List V) :
    (l.filter q).insertionSort (fun a b => key a ≤ key b)
      = (l.insertionSort fun a b => key a ≤ key b).filter q := by
  induction l with
  | nil => rfl
  | cons v rest ih =>
      rw [List.insertionSort_cons, filter_orderedInsert key q v (insertionSort_ascending key rest),
        ← ih, List.filter_cons]
      cases q v with
      | true => rfl
      | false => rfl

variable {key}

theorem mem_rowsBy {t : Table K V} {p : V → Bool} {v : V} :
    v ∈ rowsBy key t p ↔ (∃ k : K, t[k]? = some v) ∧ p v = true := by
  rw [rowsBy, List.mem_insertionSort, mem_rows]

/-- The rows of a narrower read are those of the wider one that it keeps. -/
theorem rowsBy_and (t : Table K V) (p q : V → Bool) :
    rowsBy key t (fun v => p v && q v) = (rowsBy key t p).filter q := by
  rw [rowsBy, rowsBy, rows_and, insertionSort_filter]

end OrderBy

/-! ## `ORDER BY … LIMIT 1` -/

section First

variable {β : Type} [LinearOrder β] {key : V → β}

theorem descAsc_le_iff {α γ : Type} [LinearOrder α] [LinearOrder γ] {f : V → α}
    {g : V → γ} {v w : V} :
    descAsc f g v ≤ descAsc f g w ↔ f w < f v ∨ f v = f w ∧ g v ≤ g w := by
  rw [descAsc, descAsc, Prod.Lex.toLex_le_toLex]
  rfl

theorem ascAsc_le_iff {α γ : Type} [LinearOrder α] [LinearOrder γ] {f : V → α}
    {g : V → γ} {v w : V} :
    ascAsc f g v ≤ ascAsc f g w ↔ f v < f w ∨ f v = f w ∧ g v ≤ g w := by
  rw [ascAsc, ascAsc, Prod.Lex.toLex_le_toLex]

theorem first_mem {t : Table K V} {p : V → Bool} {v : V}
    (h : first key t p = some v) : (∃ k : K, t[k]? = some v) ∧ p v = true :=
  mem_rows.mp (List.argmin_mem (Option.mem_def.mpr h))

theorem first_le {t : Table K V} {p : V → Bool} {v w : V} {k : K}
    (h : first key t p = some v) (hw : t[k]? = some w) (hp : p w = true) :
    key v ≤ key w :=
  List.le_of_mem_argmin (mem_rows.mpr ⟨⟨k, hw⟩, hp⟩) (Option.mem_def.mpr h)

theorem first_eq_none_iff (key : V → β) {t : Table K V} {p : V → Bool} :
    first key t p = none ↔ ∀ (k : K) v, t[k]? = some v → p v = false := by
  rw [first, List.argmin_eq_none, rows_eq_nil_iff]

/-- A rewrite of the rows that `key` and `p` cannot see moves the first row
    with it. -/
theorem first_map {W : Type} (key : V → β) (key' : W → β) (f : V → W) (t : Table K V)
    (p : W → Bool) (hkey : ∀ v, key' (f v) = key v) :
    first key' (t.map fun _ => f) p = (first key t fun v => p (f v)).map f := by
  rw [first, first, rows_map]
  induction rows t fun v => p (f v) with
  | nil => rfl
  | cons v rest ih =>
      rw [List.map_cons, List.argmin_cons, List.argmin_cons, ih]
      cases rest.argmin key with
      | none => rfl
      | some w =>
          simp only [Option.map_some, hkey]
          split
          · rfl
          · rfl

theorem first_congr {t t' : Table K V} {p : V → Bool}
    (h : rows t p = rows t' p) : first key t p = first key t' p := by
  rw [first, first, h]

end First

/-! ## `SELECT MIN(…)` and `SELECT MAX(…)` -/

section Minimum

variable {β : Type} [LinearOrder β] {f : V → Option β}

/-- The values that take part. -/
theorem mem_values {t : Table K V} {p : V → Bool} {b : β} :
    b ∈ (rows t p).filterMap f
      ↔ ∃ (k : K) (v : V), t[k]? = some v ∧ p v = true ∧ f v = some b := by
  rw [List.mem_filterMap]
  constructor
  · rintro ⟨v, hv, hfv⟩
    obtain ⟨⟨k, hk⟩, hp⟩ := mem_rows.mp hv
    exact ⟨k, v, hk, hp, hfv⟩
  · rintro ⟨k, v, hk, hp, hfv⟩
    exact ⟨v, mem_rows.mpr ⟨⟨k, hk⟩, hp⟩, hfv⟩

theorem values_eq_nil_iff {t : Table K V} {p : V → Bool} :
    (rows t p).filterMap f = [] ↔ ∀ (k : K) v, t[k]? = some v → p v = true → f v = none := by
  rw [List.eq_nil_iff_forall_not_mem]
  constructor
  · intro h k v hk hp
    cases hf : f v with
    | none => rfl
    | some c => exact absurd (mem_values.mpr ⟨k, v, hk, hp, hf⟩) (h c)
  · intro h c hc
    obtain ⟨k, v, hk, hp, hfv⟩ := mem_values.mp hc
    rw [h k v hk hp] at hfv
    cases hfv

theorem minimum_eq_some_iff {t : Table K V} {p : V → Bool} {b : β} :
    minimum f t p = some b ↔
      (∃ (k : K) (v : V), t[k]? = some v ∧ p v = true ∧ f v = some b)
      ∧ ∀ (k : K) v c, t[k]? = some v → p v = true → f v = some c → b ≤ c := by
  rw [minimum, List.min?_eq_some_iff, mem_values]
  refine and_congr_right fun _ => ⟨fun hle k v c hk hp hf => ?_, fun hle c hc => ?_⟩
  · exact hle c (mem_values.mpr ⟨k, v, hk, hp, hf⟩)
  · obtain ⟨k, v, hk, hp, hf⟩ := mem_values.mp hc
    exact hle k v c hk hp hf

theorem minimum_eq_none_iff {t : Table K V} {p : V → Bool} :
    minimum f t p = none ↔ ∀ (k : K) v, t[k]? = some v → p v = true → f v = none := by
  rw [minimum, List.min?_eq_none_iff, values_eq_nil_iff]

theorem maximum_eq_some_iff {t : Table K V} {p : V → Bool} {b : β} :
    maximum f t p = some b ↔
      (∃ (k : K) (v : V), t[k]? = some v ∧ p v = true ∧ f v = some b)
      ∧ ∀ (k : K) v c, t[k]? = some v → p v = true → f v = some c → c ≤ b := by
  rw [maximum, List.max?_eq_some_iff, mem_values]
  refine and_congr_right fun _ => ⟨fun hle k v c hk hp hf => ?_, fun hle c hc => ?_⟩
  · exact hle c (mem_values.mpr ⟨k, v, hk, hp, hf⟩)
  · obtain ⟨k, v, hk, hp, hf⟩ := mem_values.mp hc
    exact hle k v c hk hp hf

theorem maximum_eq_none_iff {t : Table K V} {p : V → Bool} :
    maximum f t p = none ↔ ∀ (k : K) v, t[k]? = some v → p v = true → f v = none := by
  rw [maximum, List.max?_eq_none_iff, values_eq_nil_iff]

theorem maximum_congr {t t' : Table K V} {p : V → Bool}
    (h : rows t p = rows t' p) : maximum f t p = maximum f t' p := by
  rw [maximum, maximum, h]

theorem minimum_congr {t t' : Table K V} {p : V → Bool}
    (h : rows t p = rows t' p) : minimum f t p = minimum f t' p := by
  rw [minimum, minimum, h]

end Minimum

end Laws

end Keyed
