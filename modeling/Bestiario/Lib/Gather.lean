import Mathlib.Data.List.Infix
import Mathlib.Data.List.Nodup

/-! # One pass over a list, keeping each thing once

    A pass goes over a list and is offered at most one thing at each place.  It
    keeps what it is offered in the order of the list, and nothing twice.  What
    is offered may depend on the place as well as on what stands there, so the
    answers of a world that changes during the pass are covered. -/

namespace Gather

variable {α β : Type}

/-- `b` is offered somewhere along the list, the first place being `i`. -/
def Offered (offer : Nat → α → Option β) (i : Nat) (list : List α) (b : β) : Prop :=
  ∃ n a, list[n]? = some a ∧ offer (i + n) a = some b

section Offered

variable {offer : Nat → α → Option β} {i : Nat} {a : α} {rest : List α} {b : β}

theorem offered_nil : ¬ Offered offer i [] b := by
  rintro ⟨n, a, ha, -⟩
  exact nomatch ha

theorem offered_cons :
    Offered offer i (a :: rest) b ↔ offer i a = some b ∨ Offered offer (i + 1) rest b := by
  constructor
  · rintro ⟨n, x, hx, hoffer⟩
    cases n with
    | zero =>
        cases hx
        exact Or.inl hoffer
    | succ n =>
        refine Or.inr ⟨n, x, hx, ?_⟩
        rw [Nat.add_right_comm]
        exact hoffer
  · rintro (hoffer | ⟨n, x, hx, hoffer⟩)
    · exact ⟨0, a, rfl, hoffer⟩
    · refine ⟨n + 1, x, hx, ?_⟩
      rw [Nat.add_right_comm] at hoffer
      exact hoffer

end Offered

variable [DecidableEq β]

/-- Keep `b` unless it is there already. -/
def keep (kept : List β) (b : β) : List β := if b ∈ kept then kept else kept ++ [b]

/-- The pass from place `i` on. -/
def gather (offer : Nat → α → Option β) : Nat → List α → List β → List β
  | _, [], kept => kept
  | i, a :: rest, kept =>
      match offer i a with
      | none => gather offer (i + 1) rest kept
      | some b => gather offer (i + 1) rest (keep kept b)

section Keep

variable {kept : List β} {b c : β}

@[simp]
theorem mem_keep : c ∈ keep kept b ↔ c ∈ kept ∨ c = b := by
  rw [keep]
  by_cases hb : b ∈ kept
  · rw [if_pos hb]
    constructor
    · exact Or.inl
    · rintro (hc | rfl)
      · exact hc
      · exact hb
  · rw [if_neg hb, List.mem_append, List.mem_singleton]

theorem nodup_keep (h : kept.Nodup) : (keep kept b).Nodup := by
  rw [keep]
  by_cases hb : b ∈ kept
  · rw [if_pos hb]
    exact h
  · rw [if_neg hb]
    refine List.Nodup.append h (List.nodup_singleton b) ?_
    intro c hc hcb
    rw [List.mem_singleton] at hcb
    exact hb (hcb ▸ hc)

end Keep

section Gather

variable {offer : Nat → α → Option β} {i : Nat} {list : List α} {kept : List β}

/-- **WHAT A PASS KEEPS**: what it began with and whatever it is offered. -/
theorem mem_gather {b : β} :
    b ∈ gather offer i list kept ↔ b ∈ kept ∨ Offered offer i list b := by
  induction list generalizing i kept with
  | nil =>
      show b ∈ kept ↔ _
      rw [or_iff_left offered_nil]
  | cons a rest ih =>
      rw [gather, offered_cons]
      cases hoffer : offer i a with
      | none => simp [ih]
      | some c =>
          dsimp only
          rw [ih, mem_keep, or_assoc, Option.some.injEq, eq_comm (a := b)]

/-- **NOTHING TWICE.** -/
theorem nodup_gather (h : kept.Nodup) : (gather offer i list kept).Nodup := by
  induction list generalizing i kept with
  | nil => exact h
  | cons a rest ih =>
      rw [gather]
      cases offer i a with
      | none => exact ih h
      | some b => exact ih (nodup_keep h)

/-- **IN THE ORDER OF THE LIST**: what is kept anew is read off the list by any
    reading that agrees with what was offered. -/
theorem sublist_gather {read : α → Option β}
    (h : ∀ n a b, list[n]? = some a → offer (i + n) a = some b → read a = some b) :
    List.Sublist (gather offer i list kept) (kept ++ list.filterMap read) := by
  induction list generalizing i kept with
  | nil => rw [List.filterMap_nil, List.append_nil, gather]
  | cons a rest ih =>
      have hrest : ∀ n x b, rest[n]? = some x → offer (i + 1 + n) x = some b →
          read x = some b := by
        intro n x b hx hb
        rw [Nat.add_right_comm] at hb
        exact h (n + 1) x b hx hb
      rw [gather]
      cases hoffer : offer i a with
      | none =>
          refine (ih hrest).trans (List.Sublist.append_left ?_ kept)
          rw [List.filterMap_cons]
          cases read a with
          | none => exact List.Sublist.refl _
          | some c => exact List.sublist_cons_self c _
      | some b =>
          rw [List.filterMap_cons, h 0 a b rfl hoffer]
          refine (ih hrest).trans ?_
          rw [List.append_cons kept b]
          refine List.Sublist.append_right ?_ _
          rw [keep]
          by_cases hb : b ∈ kept
          · rw [if_pos hb]
            exact List.sublist_append_left kept [b]
          · rw [if_neg hb]

end Gather

end Gather
