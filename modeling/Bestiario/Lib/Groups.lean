import Mathlib

/-! # Groups

    A list split by a key, the keys sorted and each once: what pushing every
    element into the entry of an ordered map leaves.  The groups partition the
    list, so whatever is counted in each adds up to the count in the whole. -/

namespace Groups

variable {K α : Type} [LinearOrder K]

/-- A key put where it belongs in a sorted list of keys. -/
def insertKey (key : K) : List K → List K
  | [] => [key]
  | k :: rest =>
      if key < k then key :: k :: rest
      else if key = k then k :: rest
      else k :: insertKey key rest

/-- The keys of a list, sorted, each once. -/
def keysOf (keys : List K) : List K := keys.foldl (fun acc key => insertKey key acc) []

/-- The list split by `key`, each group in the order it came. -/
def groups (key : α → K) (xs : List α) : List (K × List α) :=
  (keysOf (xs.map key)).map fun k => (k, xs.filter fun x => decide (key x = k))

theorem mem_insertKey {key k : K} (keys : List K) :
    k ∈ insertKey key keys ↔ k = key ∨ k ∈ keys := by
  induction keys with
  | nil => simp [insertKey]
  | cons head rest ih =>
      rw [insertKey]
      split
      · simp
      · split
        · rename_i heq
          simp [heq]
        · rw [List.mem_cons, ih, List.mem_cons]
          tauto

theorem insertKey_sorted {key : K} {keys : List K} (h : keys.Pairwise (· < ·)) :
    (insertKey key keys).Pairwise (· < ·) := by
  induction keys with
  | nil => simp [insertKey]
  | cons head rest ih =>
      obtain ⟨hhead, hrest⟩ := List.pairwise_cons.mp h
      rw [insertKey]
      split
      · rename_i hlt
        refine List.pairwise_cons.mpr ⟨fun k hk => ?_, h⟩
        rcases List.mem_cons.mp hk with rfl | hmem
        · exact hlt
        · exact lt_trans hlt (hhead k hmem)
      · split
        · exact h
        · rename_i hnlt hne
          refine List.pairwise_cons.mpr ⟨fun k hk => ?_, ih hrest⟩
          rcases (mem_insertKey rest).mp hk with rfl | hmem
          · exact lt_of_le_of_ne (not_lt.mp hnlt) (Ne.symm hne)
          · exact hhead k hmem

/-- Inserting one key after another keeps the order and loses none. -/
theorem foldl_insertKey (keys acc : List K) (hacc : acc.Pairwise (· < ·)) :
    (keys.foldl (fun acc key => insertKey key acc) acc).Pairwise (· < ·)
      ∧ ∀ k, k ∈ keys.foldl (fun acc key => insertKey key acc) acc ↔ k ∈ acc ∨ k ∈ keys := by
  induction keys generalizing acc with
  | nil => exact ⟨hacc, by simp⟩
  | cons key rest ih =>
      obtain ⟨hsorted, hmem⟩ := ih (insertKey key acc) (insertKey_sorted hacc)
      refine ⟨hsorted, fun k => ?_⟩
      rw [List.foldl_cons, hmem, mem_insertKey, List.mem_cons]
      tauto

@[simp] theorem mem_keysOf {keys : List K} {k : K} : k ∈ keysOf keys ↔ k ∈ keys := by
  rw [keysOf, (foldl_insertKey keys [] .nil).2]
  simp

theorem keysOf_nodup (keys : List K) : (keysOf keys).Nodup :=
  (foldl_insertKey keys [] .nil).1.imp fun h => ne_of_lt h

/-- A key that is not there has no group. -/
theorem filter_eq_nil {key : α → K} {xs : List α} {k : K} (h : k ∉ keysOf (xs.map key)) :
    xs.filter (fun x => decide (key x = k)) = [] := by
  rw [List.filter_eq_nil_iff]
  intro x hx heq
  exact h (mem_keysOf.mpr (List.mem_map.mpr ⟨x, hx, of_decide_eq_true heq⟩))

/-! ## Counts over groups -/

/-- One element is counted under one of the keys. -/
theorem sum_indicator {keys : List K} (hn : keys.Nodup) {key : K} (hkey : key ∈ keys)
    (b : Bool) :
    (keys.map fun k => if (decide (key = k) && b) = true then 1 else 0).sum
      = if b = true then 1 else 0 := by
  induction keys with
  | nil => cases hkey
  | cons k rest ih =>
      obtain ⟨hk, hrest⟩ := List.nodup_cons.mp hn
      rw [List.map_cons, List.sum_cons]
      by_cases heq : key = k
      · subst heq
        have hzero : (rest.map fun k => if (decide (key = k) && b) = true then 1 else 0).sum
            = 0 := by
          refine List.sum_eq_zero fun n hmem => ?_
          obtain ⟨k, hk', rfl⟩ := List.mem_map.mp hmem
          have hne : key ≠ k := fun h => hk (h ▸ hk')
          simp [hne]
        rw [hzero]
        simp
      · rw [ih hrest ((List.mem_cons.mp hkey).resolve_left heq)]
        simp [heq]

/-- **COUNTS ADD UP OVER GROUPS**, whatever keys are listed as long as every
    element has its own among them. -/
theorem sum_countP {keys : List K} (hn : keys.Nodup) (key : α → K) (p : α → Bool)
    (xs : List α) (h : ∀ x ∈ xs, key x ∈ keys) :
    (keys.map fun k => (xs.filter fun x => decide (key x = k)).countP p).sum = xs.countP p := by
  induction xs with
  | nil => simp
  | cons x xs ih =>
      have hrest : ∀ y ∈ xs, key y ∈ keys := fun y hy => h y (List.mem_cons_of_mem x hy)
      have hone := sum_indicator hn (h x List.mem_cons_self) (p x)
      have hsplit : ∀ k, ((x :: xs).filter fun x => decide (key x = k)).countP p
          = (xs.filter fun x => decide (key x = k)).countP p
            + if (decide (key x = k) && p x) = true then 1 else 0 := by
        intro k
        rw [List.filter_cons]
        by_cases hk : key x = k
        · simp [hk, List.countP_cons]
        · simp [hk]
      rw [List.countP_cons, ← hone, ← ih hrest, ← List.sum_map_add]
      exact congrArg List.sum (List.map_congr_left fun k _ => hsplit k)

/-- **THE GROUPS PARTITION THE LIST**, whatever keys are listed as long as every
    element has its own among them. -/
theorem perm_flatMap_filter {keys : List K} (hn : keys.Nodup) (key : α → K) {xs : List α}
    (h : ∀ x ∈ xs, key x ∈ keys) :
    (keys.flatMap fun k => xs.filter fun x => decide (key x = k)).Perm xs := by
  induction keys generalizing xs with
  | nil =>
      have hnil : xs = [] := List.eq_nil_iff_forall_not_mem.mpr fun x hx => nomatch h x hx
      rw [hnil]
      exact .refl _
  | cons k rest ih =>
      obtain ⟨hk, hrest⟩ := List.nodup_cons.mp hn
      -- The later groups take nothing that has the key `k`.
      have hothers : (rest.flatMap fun k' => xs.filter fun x => decide (key x = k'))
          = rest.flatMap fun k' => (xs.filter fun x => !decide (key x = k)).filter
            fun x => decide (key x = k') := by
        refine List.flatMap_congr fun k' hk' => ?_
        rw [List.filter_filter]
        refine List.filter_congr fun x _ => ?_
        by_cases heq : key x = k'
        · have hne : key x ≠ k := fun hx => hk (hx ▸ heq ▸ hk')
          rw [decide_eq_true heq, decide_eq_false hne]
          rfl
        · rw [decide_eq_false heq, Bool.false_and]
      have hleft : ∀ x ∈ xs.filter (fun x => !decide (key x = k)), key x ∈ rest := by
        intro x hx
        obtain ⟨hmem, hne⟩ := List.mem_filter.mp hx
        refine (List.mem_cons.mp (h x hmem)).resolve_left fun heq => ?_
        rw [decide_eq_true heq] at hne
        exact nomatch hne
      rw [List.flatMap_cons, hothers]
      exact ((ih hrest hleft).append_left _).trans (List.filter_append_perm _ xs)

/-- A sum over the groups is the sum over the whole. -/
theorem sum_groups {M : Type} [AddCommMonoid M] (key : α → K) (f : α → M) (xs : List α) :
    ((groups key xs).map fun group => (group.2.map f).sum).sum = (xs.map f).sum := by
  have hperm := perm_flatMap_filter (keysOf_nodup (xs.map key)) key fun x hx =>
    mem_keysOf.mpr (List.mem_map_of_mem hx)
  rw [← (hperm.map f).sum_eq, groups, List.map_map, List.map_flatMap, List.flatMap,
    List.sum_flatten, List.map_map]
  rfl

/-! ## One of many -/

/-- What only one element contributes to is its contribution. -/
theorem flatMap_single {α β : Type} {xs : List α} {x : α} {f : α → List β} (hn : xs.Nodup)
    (hx : x ∈ xs) (h : ∀ y ∈ xs, y ≠ x → f y = []) : xs.flatMap f = f x := by
  induction xs with
  | nil => cases hx
  | cons y rest ih =>
      obtain ⟨hy, hrest⟩ := List.nodup_cons.mp hn
      rw [List.flatMap_cons]
      rcases List.mem_cons.mp hx with rfl | hmem
      · have hnil : rest.flatMap f = [] := by
          rw [List.flatMap_eq_nil_iff]
          exact fun z hz => h z (List.mem_cons_of_mem x hz) fun heq => hy (heq ▸ hz)
        rw [hnil, List.append_nil]
      · have hne : y ≠ x := fun heq => hy (heq ▸ hmem)
        rw [h y List.mem_cons_self hne, List.nil_append,
          ih hrest hmem fun z hz => h z (List.mem_cons_of_mem y hz)]

/-- What is found is the one element there is to find. -/
theorem find?_eq_some_of_unique {α : Type} {xs : List α} {x : α} {p : α → Bool} (hx : x ∈ xs)
    (hp : p x = true) (h : ∀ y ∈ xs, p y = true → y = x) : xs.find? p = some x := by
  cases hfind : xs.find? p with
  | none => exact absurd hp (List.find?_eq_none.mp hfind x hx)
  | some y => rw [h y (List.mem_of_find?_eq_some hfind) (List.find?_some hfind)]

/-- What only the block of one key can hold is found there. -/
theorem find?_flatMap {α κ : Type} [DecidableEq κ] {block : κ → List α} {p : α → Bool} {key : κ}
    (h : ∀ other, other ≠ key → (block other).find? p = none) (keys : List κ) :
    (keys.flatMap block).find? p = if key ∈ keys then (block key).find? p else none := by
  induction keys with
  | nil => rfl
  | cons other rest ih =>
      rw [List.flatMap_cons, List.find?_append, ih]
      by_cases heq : other = key
      · subst heq
        rw [if_pos List.mem_cons_self]
        split
        · exact Option.or_self
        · exact Option.or_none
      · have hmem : key ∈ other :: rest ↔ key ∈ rest := by
          rw [List.mem_cons]
          exact ⟨fun h => h.resolve_left fun h => heq h.symm, .inr⟩
        rw [h other heq, Option.none_or, if_congr hmem rfl rfl]

end Groups
