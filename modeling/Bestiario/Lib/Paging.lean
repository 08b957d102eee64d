import Mathlib.Data.Finset.Card
import Mathlib.Data.List.Sort

/-! # Pages of the newest

    A server that holds a finite set and hands out at most `k` of what was
    asked for, the greatest keys first.  Which of several with one key are left
    out is the server's choice, and so is the order inside the page; every lemma
    here holds of any of them.

    The two directions of one counting argument: what lies at or above a mark is
    on the page when it fits, and some of it is missing when it does not. -/

namespace Paging

variable {E : Type} {key : E → Nat} {k : Nat} {s : Finset E} {page : List E}

/-- `page` holds the newest `k` of `s`, or all of it when there are fewer. -/
structure Newest (key : E → Nat) (k : Nat) (s : Finset E) (page : List E) : Prop where
  nodup : page.Nodup
  stored : ∀ e ∈ page, e ∈ s
  length : page.length = min k s.card
  newest : ∀ e ∈ page, ∀ r ∈ s, r ∉ page → key r ≤ key e

/-- The part of `s` at or above a mark. -/
def above (key : E → Nat) (s : Finset E) (mark : Nat) : Finset E := s.filter (mark ≤ key ·)

theorem mem_above {mark : Nat} {e : E} : e ∈ above key s mark ↔ e ∈ s ∧ mark ≤ key e :=
  Finset.mem_filter

theorem card_above_le (mark : Nat) : (above key s mark).card ≤ s.card :=
  Finset.card_filter_le s _

/-- Only an empty set is answered with nothing. -/
theorem Newest.eq_nil_iff (h : Newest key k s page) (hk : 1 ≤ k) : page = [] ↔ s = ∅ := by
  rw [← List.length_eq_zero_iff, h.length, ← Finset.card_eq_zero]
  omega

section Counting

variable [DecidableEq E]

/-- A page is as long as the set of what is on it. -/
theorem Newest.card (h : Newest key k s page) : page.toFinset.card = page.length :=
  List.toFinset_card_of_nodup h.nodup

/-- **WHAT FITS IS THERE**: everything at or above a mark, when it is no more than
    a page. -/
theorem Newest.mem_of_fits (h : Newest key k s page) {mark : Nat}
    (hfits : (above key s mark).card ≤ k) {e : E} (he : e ∈ above key s mark) : e ∈ page := by
  by_contra hout
  obtain ⟨hs, hmark⟩ := mem_above.mp he
  -- A page without `e` has nothing below it, so it is a proper part of `above`.
  have hsub : page.toFinset ⊂ above key s mark := by
    refine (Finset.ssubset_iff_of_subset ?_).mpr ⟨e, he, by simpa using hout⟩
    intro x hx
    have hx := List.mem_toFinset.mp hx
    exact mem_above.mpr ⟨h.stored x hx, hmark.trans (h.newest x hx e hs hout)⟩
  have hcard := Finset.card_lt_card hsub
  have hle : (above key s mark).card ≤ s.card := card_above_le mark
  rw [h.card, h.length] at hcard
  omega

/-- **WHAT DOES NOT FIT IS CUT**: something at or above the mark is left out. -/
theorem Newest.exists_left_out (h : Newest key k s page) {mark : Nat}
    (hover : k < (above key s mark).card) : ∃ e ∈ above key s mark, e ∉ page := by
  by_contra hall
  push Not at hall
  have hsub : above key s mark ⊆ page.toFinset :=
    fun e he => List.mem_toFinset.mpr (hall e he)
  have hcard := Finset.card_le_card hsub
  rw [h.card, h.length] at hcard
  omega

end Counting

/-- Nothing newer than something on the page is left out. -/
theorem Newest.mem_of_newer (h : Newest key k s page) {e x : E} (hx : x ∈ page) (he : e ∈ s)
    (hnewer : key x < key e) : e ∈ page := by
  by_contra hout
  exact absurd (h.newest x hx e he hout) (Nat.not_le.mpr hnewer)

/-- A page that reaches below a mark has room to spare above it. -/
theorem Newest.card_above_lt [DecidableEq E] (h : Newest key k s page) {x : E} (hx : x ∈ page)
    {mark : Nat} (hlow : key x < mark) : (above key s mark).card < k := by
  -- All of it is on the page, beside `x` itself.
  have hsub : above key s mark ⊂ page.toFinset := by
    refine (Finset.ssubset_iff_of_subset fun e he => ?_).mpr
      ⟨x, List.mem_toFinset.mpr hx, fun hin => absurd (mem_above.mp hin).2 (Nat.not_le.mpr hlow)⟩
    obtain ⟨hs, hmark⟩ := mem_above.mp he
    exact List.mem_toFinset.mpr (h.mem_of_newer hx hs (by omega))
  have hcard := Finset.card_lt_card hsub
  rw [h.card, h.length] at hcard
  omega

/-- A page holds at least one of what is at or above a mark, when there is any. -/
theorem Newest.exists_above (h : Newest key k s page) (hk : 1 ≤ k) {mark : Nat} {e : E}
    (he : e ∈ above key s mark) : ∃ x ∈ page, mark ≤ key x := by
  obtain ⟨hs, hmark⟩ := mem_above.mp he
  by_cases hin : e ∈ page
  · exact ⟨e, hin, hmark⟩
  · have hne : page ≠ [] := by
      intro hnil
      have hempty := (h.eq_nil_iff hk).mp hnil
      rw [hempty] at hs
      simp at hs
    obtain ⟨x, hx⟩ := List.exists_mem_of_ne_nil page hne
    exact ⟨x, hx, hmark.trans (h.newest x hx e hs hin)⟩

/-- Everything below a mark is on the page iff there is nothing below it or the
    whole set fits. -/
theorem Newest.mem_below_iff [DecidableEq E] (h : Newest key k s page) (mark : Nat) :
    (∀ e ∈ s, key e < mark → e ∈ page) ↔ (∀ e ∈ s, mark ≤ key e) ∨ s.card ≤ k := by
  constructor
  · intro hall
    by_cases hlow : ∀ e ∈ s, mark ≤ key e
    · exact Or.inl hlow
    · right
      push Not at hlow
      obtain ⟨x, hx, hxlt⟩ := hlow
      have hxpage := hall x hx hxlt
      have hsub : s ⊆ page.toFinset := by
        intro e he
        refine List.mem_toFinset.mpr ?_
        by_cases hlt : key e < mark
        · exact hall e he hlt
        · exact h.mem_of_newer hxpage he (by omega)
      have hcard := Finset.card_le_card hsub
      rw [h.card, h.length] at hcard
      omega
  · rintro (hlow | hfits) e he hlt
    · exact absurd (hlow e he) (Nat.not_le.mpr hlt)
    · have hall : (above key s 0).card ≤ k := (card_above_le 0).trans hfits
      exact h.mem_of_fits hall (mem_above.mpr ⟨he, Nat.zero_le _⟩)

/-- A page with room to spare holds everything. -/
theorem Newest.mem_of_short [DecidableEq E] (h : Newest key k s page) (hshort : page.length < k)
    {e : E} (he : e ∈ s) : e ∈ page := by
  have hfits : (above key s 0).card ≤ k := by
    have hle : (above key s 0).card ≤ s.card := card_above_le 0
    rw [h.length] at hshort
    omega
  exact h.mem_of_fits hfits (mem_above.mpr ⟨he, Nat.zero_le _⟩)

/-- What has a page of newer ones ahead of it is not on it. -/
theorem Newest.notMem_of_behind [DecidableEq E] (h : Newest key k s page) {v : E}
    (hbehind : k ≤ (s.filter (key v < key ·)).card) : v ∉ page := by
  intro hv
  have hsub : insert v (s.filter (key v < key ·)) ⊆ page.toFinset := by
    intro e he
    refine List.mem_toFinset.mpr ?_
    rcases Finset.mem_insert.mp he with rfl | he
    · exact hv
    · obtain ⟨hs, hnewer⟩ := Finset.mem_filter.mp he
      exact h.mem_of_newer hv hs hnewer
  have hout : v ∉ s.filter (key v < key ·) := fun hin =>
    lt_irrefl _ (Finset.mem_filter.mp hin).2
  have hcard := Finset.card_le_card hsub
  rw [Finset.card_insert_of_notMem hout, h.card, h.length] at hcard
  omega

/-- The newest by a finer key are the newest. -/
theorem Newest.coarsen {finer : E → Nat} (h : Newest finer k s page)
    (hkey : ∀ a b, finer a ≤ finer b → key a ≤ key b) : Newest key k s page where
  nodup := h.nodup
  stored := h.stored
  length := h.length
  newest e he r hr hout := hkey r e (h.newest e he r hr hout)

/-! ## A server that sorts -/

/-- The first page of what is held, newest first. -/
def firstPage (key : E → Nat) (k : Nat) (held : List E) : List E :=
  (held.insertionSort fun a b => key b ≤ key a).take k

theorem newest_firstPage [DecidableEq E] (key : E → Nat) (k : Nat) {held : List E}
    (h : held.Nodup) : Newest key k held.toFinset (firstPage key k held) := by
  have hperm := List.perm_insertionSort (fun a b => key b ≤ key a) held
  have htotal : Std.Total fun a b => key b ≤ key a := ⟨fun a b => Nat.le_total _ _⟩
  have htrans : IsTrans E fun a b => key b ≤ key a := ⟨fun a b c hab hbc => hbc.trans hab⟩
  have hsorted := List.pairwise_insertionSort (fun a b => key b ≤ key a) held
  rw [← List.take_append_drop k (held.insertionSort fun a b => key b ≤ key a),
    List.pairwise_append] at hsorted
  have hnodup : (held.insertionSort fun a b => key b ≤ key a).Nodup := hperm.nodup_iff.mpr h
  refine ⟨hnodup.sublist (List.take_sublist _ _), fun e he => ?_, ?_, fun e he r hr hout => ?_⟩
  · exact List.mem_toFinset.mpr (hperm.mem_iff.mp (List.mem_of_mem_take he))
  · rw [firstPage, List.length_take, List.length_insertionSort,
      List.toFinset_card_of_nodup h]
  · have hheld := hperm.mem_iff.mpr (List.mem_toFinset.mp hr)
    rw [← List.take_append_drop k (held.insertionSort fun a b => key b ≤ key a),
      List.mem_append] at hheld
    exact hsorted.2.2 e he r (hheld.resolve_left hout)

end Paging
