import Mathlib.Data.List.Infix
import Mathlib.Tactic.Common

/-! # Texts cut at a separator

    A name made of segments is known by its LAST separator: whatever stands
    before it and whatever stands after it can be told from the whole, as long
    as the last segment has no separator of its own. -/

namespace Segments

variable {α : Type}

/-- **A TEXT IS CUT AT ITS LAST SEPARATOR IN ONE WAY.** -/
theorem last_cut_inj {c : α} {before before' after after' : List α} (h : c ∉ after)
    (h' : c ∉ after') (heq : before ++ c :: after = before' ++ c :: after') :
    before = before' ∧ after = after' := by
  rcases List.append_eq_append_iff.mp heq with ⟨mid, rfl, hrest⟩ | ⟨mid, rfl, hrest⟩
  · cases mid with
    | nil => exact ⟨(List.append_nil before).symm, (List.cons_eq_cons.mp hrest).2⟩
    | cons d mid =>
        obtain ⟨-, rfl⟩ := List.cons_eq_cons.mp hrest
        exact absurd (List.mem_append_right mid List.mem_cons_self) h
  · cases mid with
    | nil => exact ⟨List.append_nil before', (List.cons_eq_cons.mp hrest).2.symm⟩
    | cons d mid =>
        obtain ⟨-, rfl⟩ := List.cons_eq_cons.mp hrest
        exact absurd (List.mem_append_right mid List.mem_cons_self) h'

/-- A needle that ends in a separator is found before the last segment. -/
theorem infix_of_append {c : α} {needle xs ys : List α} (hc : c ∉ ys)
    (h : needle ++ [c] <:+: xs ++ ys) : needle ++ [c] <:+: xs := by
  obtain ⟨before, after, heq⟩ := h
  have hcut : (before ++ needle) ++ c :: after = xs ++ ys := by
    rw [← heq]
    simp
  rcases List.append_eq_append_iff.mp hcut with ⟨mid, rfl, hrest⟩ | ⟨mid, -, rfl⟩
  · cases mid with
    | nil =>
        rw [List.nil_append] at hrest
        exact absurd (hrest ▸ List.mem_cons_self) hc
    | cons d mid =>
        obtain ⟨rfl, -⟩ := List.cons_eq_cons.mp hrest
        exact ⟨before, mid, by simp⟩
  · exact absurd (List.mem_append_right mid List.mem_cons_self) hc

end Segments
