import Bestiario.Lib.Table

/-! # Keeping some of a sequence

    Elements arrive one after another, and a rule drops an element for what has been
    KEPT so far: `keep`.  A query goes over all of them at once, and drops an element
    for what stands BEFORE it, kept or not: `lag` and `rowNumber`, SQL's windows.

    For two rules it comes to the same.  An element dropped for repeating the last
    of its group repeats the last one kept, repeating being an equivalence; an
    element dropped for anything of its class has something kept of its class, the
    class being transitive. -/

set_option linter.unusedSectionVars false

namespace Retain

open Keyed

/-! ## One after another -/

section Keep

variable {α : Type} {drop : List α → α → Bool} {xs : List α} {x : α}

/-- What is kept of a list. -/
def keep (drop : List α → α → Bool) (xs : List α) : List α :=
  xs.foldl (fun kept x => if drop kept x then kept else kept ++ [x]) []

theorem keep_concat (xs : List α) (x : α) :
    keep drop (xs ++ [x])
      = if drop (keep drop xs) x then keep drop xs else keep drop xs ++ [x] := by
  rw [keep, List.foldl_append]
  rfl

theorem keep_sublist (xs : List α) : (keep drop xs).Sublist xs := by
  induction xs using List.reverseRecOn with
  | nil => exact List.Sublist.slnil
  | append_singleton xs x ih =>
      rw [keep_concat]
      by_cases hdrop : drop (keep drop xs) x = true
      · rw [if_pos hdrop]
        exact ih.trans (List.sublist_append_left xs [x])
      · rw [if_neg hdrop]
        exact ih.append_right [x]

/-- **AN ELEMENT IS KEPT OR DROPPED WHEN IT ARRIVES**, whatever follows. -/
theorem mem_keep_iff {before after : List α} (hn : (before ++ x :: after).Nodup) :
    x ∈ keep drop (before ++ x :: after) ↔ drop (keep drop before) x = false := by
  induction after using List.reverseRecOn with
  | nil =>
      have hx : x ∉ before := fun hmem =>
        (List.nodup_append'.mp hn).2.2 hmem List.mem_cons_self
      rw [keep_concat]
      cases hdrop : drop (keep drop before) x with
      | true =>
          rw [if_pos rfl]
          exact ⟨fun hmem => absurd ((keep_sublist before).subset hmem) hx, fun h => nomatch h⟩
      | false =>
          rw [if_neg Bool.false_ne_true]
          exact ⟨fun _ => rfl, fun _ => List.mem_append_right _ List.mem_cons_self⟩
  | append_singleton after y ih =>
      rw [← List.cons_append, ← List.append_assoc] at hn ⊢
      obtain ⟨hn', -, hdisjoint⟩ := List.nodup_append'.mp hn
      have hne : x ≠ y := fun heq =>
        hdisjoint (List.mem_append_right before List.mem_cons_self) (heq ▸ List.mem_cons_self)
      rw [keep_concat, ← ih hn']
      split
      · rfl
      · rw [List.mem_append, List.mem_singleton, or_iff_left hne]

/-- The last of a list that climbs is above the rest. -/
theorem le_getLast {R : α → α → Prop} (h : xs.Pairwise R) (hlast : xs.getLast? = some x) :
    x ∈ xs ∧ ∀ y ∈ xs, y = x ∨ R y x := by
  obtain ⟨init, rfl⟩ := List.getLast?_eq_some_iff.mp hlast
  refine ⟨List.mem_append_right init List.mem_cons_self, fun y hy => ?_⟩
  rcases List.mem_append.mp hy with hy | hy
  · exact .inr ((List.pairwise_append.mp h).2.2 y hy x List.mem_cons_self)
  · exact .inl (List.mem_singleton.mp hy)

end Keep

/-! ## The last of a group -/

section Last

variable {α γ : Type} [DecidableEq γ] {drop : List α → α → Bool} {group : α → Option γ}
  {repeats : α → α → Bool}

/-- The last of an element's group. -/
def lastOf (group : α → Option γ) (x : α) (xs : List α) : Option α :=
  (xs.filter fun y => group y == group x).getLast?

theorem lastOf_concat (xs : List α) (x y : α) :
    lastOf group x (xs ++ [y]) = if group y = group x then some y else lastOf group x xs := by
  rw [lastOf, List.filter_append]
  by_cases h : group y = group x
  · rw [if_pos h, List.filter_singleton, beq_iff_eq.mpr h, cond_true, List.getLast?_concat]
  · rw [if_neg h, List.filter_singleton, beq_eq_false_iff_ne.mpr h, cond_false,
      List.append_nil]
    rfl

theorem lastOf_congr {x y : α} (h : group y = group x) (xs : List α) :
    lastOf group y xs = lastOf group x xs := by
  rw [lastOf, lastOf, h]

theorem lastOf_eq_none_iff {x : α} {xs : List α} :
    lastOf group x xs = none ↔ ∀ y ∈ xs, group y ≠ group x := by
  rw [lastOf, List.getLast?_eq_none_iff, List.filter_eq_nil_iff]
  exact forall₂_congr fun y _ => not_congr beq_iff_eq

/-- The last of a group is in it, above the rest of it. -/
theorem lastOf_spec {R : α → α → Prop} {x y : α} {xs : List α} (h : xs.Pairwise R)
    (hlast : lastOf group x xs = some y) :
    y ∈ xs ∧ group y = group x ∧ ∀ z ∈ xs, group z = group x → z = y ∨ R z y := by
  obtain ⟨hmem, hle⟩ := le_getLast (h.filter fun y => group y == group x) hlast
  obtain ⟨hy, hgroup⟩ := List.mem_filter.mp hmem
  exact ⟨hy, beq_iff_eq.mp hgroup,
    fun z hz hgroup => hle z (List.mem_filter.mpr ⟨hz, beq_iff_eq.mpr hgroup⟩)⟩

/-- Of a group, what was kept last is what came last, or what came last repeats. -/
theorem lastOf_keep
    (hdrop : ∀ kept x, group x ≠ none → drop kept x = (lastOf group x kept).any (repeats x))
    (xs : List α) {x : α} (hx : group x ≠ none) :
    (lastOf group x xs = none ∧ lastOf group x (keep drop xs) = none)
      ∨ ∃ a b, lastOf group x xs = some b ∧ lastOf group x (keep drop xs) = some a
          ∧ (a = b ∨ repeats b a = true) := by
  induction xs using List.reverseRecOn with
  | nil => exact .inl ⟨rfl, rfl⟩
  | append_singleton xs y ih =>
      rw [lastOf_concat, keep_concat]
      by_cases hy : group y = group x
      · rw [if_pos hy]
        refine .inr ?_
        by_cases hd : drop (keep drop xs) y = true
        · -- Dropped: the last one kept is what it repeats.
          rw [if_pos hd]
          rw [hdrop _ y (hy ▸ hx), lastOf_congr hy] at hd
          cases ha : lastOf group x (keep drop xs) with
          | none =>
              rw [ha] at hd
              exact nomatch hd
          | some a =>
              rw [ha] at hd
              exact ⟨a, y, rfl, rfl, .inr hd⟩
        · rw [if_neg hd, lastOf_concat, if_pos hy]
          exact ⟨y, y, rfl, rfl, .inl rfl⟩
      · rw [if_neg hy]
        by_cases hd : drop (keep drop xs) y = true
        · rw [if_pos hd]
          exact ih
        · rw [if_neg hd, lastOf_concat, if_neg hy]
          exact ih

/-- **TO REPEAT THE LAST ONE KEPT IS TO REPEAT THE LAST ONE.** -/
theorem drop_keep_last
    (hsymm : ∀ x y, repeats x y = true → repeats y x = true)
    (htrans : ∀ x y z, repeats x y = true → repeats y z = true → repeats x z = true)
    (hdrop : ∀ kept x, group x ≠ none → drop kept x = (lastOf group x kept).any (repeats x))
    (xs : List α) {x : α} (hx : group x ≠ none) :
    drop (keep drop xs) x = (lastOf group x xs).any (repeats x) := by
  rw [hdrop _ x hx]
  rcases lastOf_keep hdrop xs hx with ⟨hraw, hkept⟩ | ⟨a, b, hraw, hkept, heq | hba⟩
  · rw [hraw, hkept]
  · rw [hraw, hkept, heq]
  · rw [hraw, hkept, Option.any_some, Option.any_some, Bool.eq_iff_iff]
    exact ⟨fun h => htrans x a b h (hsymm b a hba), fun h => htrans x b a h hba⟩

end Last

/-! ## Anything of a class -/

section Class

variable {α : Type} {drop : List α → α → Bool} {q : α → Bool} {takes : α → α → Bool}

/-- **TO FIND ONE OF THE CLASS KEPT IS TO FIND ONE.** -/
theorem drop_keep_class (hclass : ∀ x y, takes x y = true → q y = true)
    (htrans : ∀ x y z, takes x y = true → takes y z = true → takes x z = true)
    (hdrop : ∀ kept x, q x = true → drop kept x = kept.any (takes x))
    (xs : List α) {x : α} (hx : q x = true) :
    drop (keep drop xs) x = xs.any (takes x) := by
  rw [hdrop _ x hx]
  induction xs using List.reverseRecOn with
  | nil => rfl
  | append_singleton xs y ih =>
      rw [keep_concat, List.any_append, ← ih, List.any_cons, List.any_nil, Bool.or_false]
      by_cases hd : drop (keep drop xs) y = true
      · rw [if_pos hd]
        cases hy : takes x y with
        | false => exact (Bool.or_false _).symm
        | true =>
            -- Dropped for one kept, which takes the place of `x` too.
            rw [hdrop _ y (hclass x y hy)] at hd
            obtain ⟨z, hz, hyz⟩ := List.any_eq_true.mp hd
            rw [Bool.or_true]
            exact List.any_eq_true.mpr ⟨z, hz, htrans x y z hy hyz⟩
      · rw [if_neg hd, List.any_append, List.any_cons, List.any_nil, Bool.or_false]

end Class

/-! ## All at once -/

section Windows

variable {K V β : Type} [Ord K] [Std.TransOrd K] [Std.LawfulEqOrd K] [LinearOrder β]
  {key : V → β} {t : Table K V} {p : V → Bool} {x y : V}

/-- The rows before `x`, in the order of the key. -/
def ahead (key : V → β) (t : Table K V) (p : V → Bool) (x : V) : List V :=
  (rowsBy key t p).filter fun y => decide (key y < key x)

/-- `LAG`: the row immediately before `x`. -/
def lag (key : V → β) (t : Table K V) (p : V → Bool) (x : V) : Option V :=
  (ahead key t p x).getLast?

/-- `ROW_NUMBER`: the position of `x`, the first being one. -/
def rowNumber (key : V → β) (t : Table K V) (p : V → Bool) (x : V) : Nat :=
  (ahead key t p x).length + 1

theorem mem_ahead :
    y ∈ ahead key t p x ↔ ((∃ k : K, t[k]? = some y) ∧ p y = true) ∧ key y < key x := by
  rw [ahead, List.mem_filter, mem_rowsBy, decide_eq_true_iff]

theorem ahead_sorted : (ahead key t p x).Pairwise fun a b => key a ≤ key b :=
  (insertionSort_ascending key (rows t p)).filter _

/-- The row before is the greatest of those before. -/
theorem lag_eq_some_iff (hinj : ∀ a b : V, (∃ k : K, t[k]? = some a) → (∃ k : K, t[k]? = some b) →
      key a = key b → a = b) :
    lag key t p x = some y ↔ y ∈ ahead key t p x ∧ ∀ z ∈ ahead key t p x, key z ≤ key y := by
  have habove : ∀ {y}, lag key t p x = some y →
      y ∈ ahead key t p x ∧ ∀ z ∈ ahead key t p x, key z ≤ key y := by
    intro y hlast
    obtain ⟨hmem, hle⟩ := le_getLast ahead_sorted hlast
    refine ⟨hmem, fun z hz => ?_⟩
    rcases hle z hz with rfl | hle
    · exact le_refl _
    · exact hle
  constructor
  · exact habove
  · rintro ⟨hmem, hle⟩
    cases hlast : lag key t p x with
    | none =>
        rw [lag, List.getLast?_eq_none_iff] at hlast
        rw [hlast] at hmem
        exact nomatch hmem
    | some z =>
        obtain ⟨hz, hle'⟩ := habove hlast
        rw [hinj z y (mem_ahead.mp hz).1.1 (mem_ahead.mp hmem).1.1
          (le_antisymm (hle z hz) (hle' y hmem))]

/-- A row is not the first when another is before it. -/
theorem one_lt_rowNumber_iff : 1 < rowNumber key t p x ↔ ∃ y, y ∈ ahead key t p x := by
  rw [rowNumber, Nat.lt_add_left_iff_pos, List.length_pos_iff_exists_mem]

end Windows

end Retain
