import Mathlib

/-! # Running sums

    Integers added one after another in a word that holds `[lo, hi)`.  Of numbers
    that are not negative the partial sums climb, so the last decides for all of
    them: a sum that fits never left the word on the way, and a running sum that
    gives up when it leaves gives up exactly when the whole does not fit. -/

namespace Running

variable {lo hi : Int} {xs : List Int}

/-- Every partial sum lies in the word. -/
def Within (lo hi : Int) (xs : List Int) : Prop :=
  ∀ part, part <+: xs → lo ≤ part.sum ∧ part.sum < hi

theorem prefix_sum_le (h : ∀ x ∈ xs, 0 ≤ x) {part : List Int} (hpart : part <+: xs) :
    part.sum ≤ xs.sum := by
  obtain ⟨rest, rfl⟩ := hpart
  have hrest : 0 ≤ rest.sum := List.sum_nonneg fun x hx => h x (List.mem_append_right part hx)
  rw [List.sum_append]
  omega

/-- **THE LAST DECIDES**: no partial sum leaves the word iff the whole does not. -/
theorem within_iff (hlo : lo ≤ 0) (h : ∀ x ∈ xs, 0 ≤ x) : Within lo hi xs ↔ xs.sum < hi := by
  constructor
  · intro hw
    exact (hw xs (List.prefix_refl xs)).2
  · intro hsum part hpart
    have hnonneg : 0 ≤ part.sum := List.sum_nonneg fun x hx => h x (hpart.subset hx)
    exact ⟨hlo.trans hnonneg, (prefix_sum_le h hpart).trans_lt hsum⟩

/-- A sum that gives up once it leaves the word. -/
def checked (lo hi : Int) (total : Option Int) (x : Int) : Option Int :=
  (total.map (· + x)).filter fun sum => lo ≤ sum && sum < hi

theorem foldl_checked_none (xs : List Int) : xs.foldl (checked lo hi) none = none := by
  induction xs with
  | nil => rfl
  | cons x xs ih => exact ih

/-- A sum that stays in the word is the exact one, whatever the signs. -/
theorem foldl_checked_within {a : Int}
    (h : ∀ part, part <+: xs → lo ≤ a + part.sum ∧ a + part.sum < hi) :
    xs.foldl (checked lo hi) (some a) = some (a + xs.sum) := by
  induction xs generalizing a with
  | nil => rw [List.foldl_nil, List.sum_nil, Int.add_zero]
  | cons x xs ih =>
      have hx := h [x] ⟨xs, rfl⟩
      rw [List.sum_singleton] at hx
      have hin : (decide (lo ≤ a + x) && decide (a + x < hi)) = true := by
        rw [decide_eq_true hx.1, decide_eq_true hx.2, Bool.and_self]
      rw [List.foldl_cons, checked, Option.map_some, Option.filter, if_pos hin, ih,
        List.sum_cons, Int.add_assoc]
      intro part hpart
      have hstep := h (x :: part) (List.cons_prefix_cons.mpr ⟨rfl, hpart⟩)
      rwa [List.sum_cons, ← Int.add_assoc] at hstep

/-- **IT GIVES UP EXACTLY WHEN** the whole does not fit. -/
theorem foldl_checked (h : ∀ x ∈ xs, 0 ≤ x) {a : Int} (hlo : lo ≤ a) (hhi : a < hi) :
    xs.foldl (checked lo hi) (some a)
      = if a + xs.sum < hi then some (a + xs.sum) else none := by
  induction xs generalizing a with
  | nil =>
      rw [List.foldl_nil, List.sum_nil, Int.add_zero, if_pos hhi]
  | cons x xs ih =>
      have hx : 0 ≤ x := h x List.mem_cons_self
      have hxs : ∀ y ∈ xs, 0 ≤ y := fun y hy => h y (List.mem_cons_of_mem x hy)
      have hrest : 0 ≤ xs.sum := List.sum_nonneg hxs
      rw [List.foldl_cons, List.sum_cons, checked, Option.map_some, Option.filter]
      by_cases hfits : a + x < hi
      · have hin : (decide (lo ≤ a + x) && decide (a + x < hi)) = true := by
          rw [decide_eq_true (hlo.trans (by omega)), decide_eq_true hfits, Bool.and_self]
        rw [if_pos hin, ih hxs (by omega) hfits, Int.add_assoc]
      · have hout : ¬ (decide (lo ≤ a + x) && decide (a + x < hi)) = true := by
          rw [decide_eq_false hfits, Bool.and_false]
          exact Bool.false_ne_true
        rw [if_neg hout, foldl_checked_none, if_neg (by omega)]

end Running
