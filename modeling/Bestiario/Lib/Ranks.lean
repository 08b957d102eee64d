import Mathlib

/-! # Ranks

    What stands at a rank of a sorted list, told by counting: the elements under a
    bound come first, so the one at a rank is under it exactly when there are more
    of them than the rank.  No list has to be sorted to say so. -/

namespace Ranks

variable {α : Type} [LinearOrder α] (bound : α)

/-- **UNDER A BOUND AT A RANK**: more elements than the rank are under it. -/
theorem getElem?_lt_iff {l : List α} (h : l.Pairwise (· ≤ ·)) {k : Nat} {x : α}
    (hx : l[k]? = some x) : x < bound ↔ k < l.countP fun y => decide (y < bound) := by
  induction l generalizing k with
  | nil => cases hx
  | cons y rest ih =>
      obtain ⟨hfirst, hrest⟩ := List.pairwise_cons.mp h
      rw [List.countP_cons]
      cases k with
      | zero =>
          rw [List.getElem?_cons_zero, Option.some_inj] at hx
          subst hx
          by_cases hy : y < bound
          · rw [if_pos (decide_eq_true hy)]
            exact iff_of_true hy (Nat.succ_pos _)
          · -- Nothing comes before the least.
            have hnone : (rest.countP fun z => decide (z < bound)) = 0 := by
              refine List.countP_eq_zero.mpr fun z hz hlt => hy ?_
              exact (hfirst z hz).trans_lt (of_decide_eq_true hlt)
            rw [if_neg (by simpa using hy), hnone]
            exact iff_of_false hy (Nat.lt_irrefl 0)
      | succ k =>
          rw [List.getElem?_cons_succ] at hx
          rw [ih hrest hx]
          by_cases hy : y < bound
          · rw [if_pos (decide_eq_true hy)]
            omega
          · have hnone : (rest.countP fun z => decide (z < bound)) = 0 := by
              refine List.countP_eq_zero.mpr fun z hz hlt => hy ?_
              exact (hfirst z hz).trans_lt (of_decide_eq_true hlt)
            rw [if_neg (by simpa using hy), hnone]
            omega

/-- At a rank stands nothing under the bound, or nothing at all, exactly when as many
    elements as the rank are not under it. -/
theorem forall_getElem?_iff {l : List α} (h : l.Pairwise (· ≤ ·)) (k : Nat) :
    (∀ x, l[k]? = some x → bound ≤ x) ↔ (l.countP fun y => decide (y < bound)) ≤ k := by
  cases hx : l[k]? with
  | none =>
      have hlength : l.length ≤ k := List.getElem?_eq_none_iff.mp hx
      have hcount := List.countP_le_length (l := l) (p := fun y => decide (y < bound))
      refine iff_of_true (fun x hsome => ?_) (hcount.trans hlength)
      cases hsome
  | some x =>
      have hiff := getElem?_lt_iff bound h hx
      constructor
      · intro hall
        exact not_lt.mp (mt hiff.mpr (not_lt.mpr (hall x rfl)))
      · intro hcount y hy
        cases hy
        exact not_lt.mp (mt hiff.mp (not_lt.mpr hcount))

end Ranks
