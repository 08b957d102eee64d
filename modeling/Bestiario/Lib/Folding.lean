import Bestiario.Lib.Table

/-! # Tables read under other spellings

    Where a key may be written in several ways, a table is read by folding every key to
    the one it stands for.  The loop keeps two tables: what stands under each folded key,
    the last row winning, and how that key was spelled, every spelling in turn.

    * `refold` — the loop, which stops at a key that stands for nothing;
    * `Holds` — its invariant: both tables, key by key, are what the rows walked say;
    * `Folded.collision` — the first key spelled more than once.  Without one, what stands
      under a key is what its one row says (`values_eq_some_iff`). -/

set_option linter.unusedSectionVars false

namespace Keyed

variable {K C S V ε : Type} [Ord C] [Std.TransOrd C]

/-- What stands under each folded key, and how the key was spelled. -/
structure Folded (C S V : Type) [Ord C] [Std.TransOrd C] where
  spellings : Table C (List S)
  values : Table C V

/-- One more row. -/
def Folded.put (t : Folded C S V) (c : C) (s : S) (v : V) : Folded C S V where
  spellings := t.spellings.insert c ((t.spellings[c]?).getD [] ++ [s])
  values := t.values.insert c v

variable (fold : K → Except ε C) (spell : K → S)

/-- One turn of the loop. -/
def Folded.step (t : Folded C S V) (row : K × V) : Except ε (Folded C S V) := do
  let c ← fold row.1
  return t.put c (spell row.1) row.2

/-- The loop. -/
def refold (rows : List (K × V)) : Except ε (Folded C S V) :=
  rows.foldlM (Folded.step fold spell) ⟨∅, ∅⟩

/-- The first key spelled more than once. -/
def Folded.collision (t : Folded C S V) : Option (C × List S) :=
  t.spellings.toList.find? fun spelled => decide (1 < spelled.2.length)

variable [Std.LawfulEqOrd C] [DecidableEq C]

/-- A key is in a table when it looks something up. -/
theorem mem_iff_exists {t : Table C V} {c : C} : c ∈ t ↔ ∃ v, t[c]? = some v := by
  rw [Std.ExtTreeMap.mem_iff_isSome_getElem?, Option.isSome_iff_exists]

/-- A row is what its key looks up. -/
theorem mem_toList_iff {t : Table C V} {row : C × V} :
    row ∈ t.toList ↔ t[row.1]? = some row.2 :=
  Std.ExtTreeMap.mem_toList_iff_getElem?_eq_some

theorem key_mem {t : Table C V} {row : C × V} (h : row ∈ t.toList) : row.1 ∈ t :=
  mem_iff_exists.mpr ⟨row.2, mem_toList_iff.mp h⟩

/-- The rows whose key stands for `c`. -/
def standing (rows : List (K × V)) (c : C) : List (K × V) :=
  rows.filter fun row => decide ((fold row.1).toOption = some c)

theorem mem_standing {rows : List (K × V)} {c : C} {row : K × V} :
    row ∈ standing fold rows c ↔ row ∈ rows ∧ fold row.1 = .ok c := by
  rw [standing, List.mem_filter, decide_eq_true_eq]
  refine and_congr_right fun _ => ?_
  cases fold row.1 with
  | error e => exact iff_of_false (fun h => nomatch h) (fun h => nomatch h)
  | ok d => exact ⟨fun h => congrArg _ (Option.some.inj h),
      fun h => congrArg _ (Except.ok.inj h)⟩

/-- The tables hold what the rows walked so far say. -/
structure Holds (rows : List (K × V)) (t : Folded C S V) : Prop where
  read : ∀ row ∈ rows, ∃ c, fold row.1 = .ok c
  spellings : ∀ c : C, t.spellings[c]? = if standing fold rows c = [] then none
    else some ((standing fold rows c).map fun row => spell row.1)
  values : ∀ c : C, t.values[c]? = (standing fold rows c).getLast?.map Prod.snd

variable {fold spell}

/-- A row joins those of the key it stands for, and of no other. -/
theorem standing_concat {rows : List (K × V)} {row : K × V} {d : C} (hrow : fold row.1 = .ok d)
    (c : C) : standing fold (rows ++ [row]) c
      = if d = c then standing fold rows c ++ [row] else standing fold rows c := by
  rw [standing, List.filter_append, List.filter_singleton, hrow]
  by_cases hd : d = c
  · have hit : decide ((Except.ok d : Except ε C).toOption = some c) = true :=
      decide_eq_true (congrArg some hd)
    rw [if_pos hd, hit]
    rfl
  · rw [if_neg hd]
    have hnot : decide ((Except.ok d : Except ε C).toOption = some c) = false :=
      decide_eq_false fun h => hd (Option.some.inj h)
    rw [hnot]
    exact List.append_nil _

/-- **ONE TURN**: the row read is one more row the tables hold. -/
theorem Holds.step {rows : List (K × V)} {t t' : Folded C S V} (ht : Holds fold spell rows t)
    {row : K × V} (h : Folded.step fold spell t row = .ok t') :
    Holds fold spell (rows ++ [row]) t' := by
  cases hrow : fold row.1 with
  | error e =>
      rw [Folded.step, hrow] at h
      exact nomatch h
  | ok d =>
      rw [Folded.step, hrow] at h
      have hput : t' = t.put d (spell row.1) row.2 := (Except.ok.inj h).symm
      subst hput
      refine ⟨fun other hother => ?_, fun c => ?_, fun c => ?_⟩
      · rcases List.mem_append.mp hother with hold | hnew
        · exact ht.read other hold
        · exact ⟨d, (List.mem_singleton.mp hnew) ▸ hrow⟩
      · rw [Folded.put, getElem?_insert_eq, standing_concat hrow]
        by_cases hd : d = c
        · subst hd
          rw [if_pos rfl, if_pos rfl, ht.spellings d, List.map_append,
            if_neg (List.append_ne_nil_of_right_ne_nil _ (List.cons_ne_nil _ _))]
          by_cases hnone : standing fold rows d = []
          · rw [if_pos hnone, hnone]
            rfl
          · rw [if_neg hnone]
            rfl
        · rw [if_neg hd, if_neg hd]
          exact ht.spellings c
      · rw [Folded.put, getElem?_insert_eq, standing_concat hrow]
        by_cases hd : d = c
        · rw [if_pos hd, if_pos hd, List.getLast?_concat]
          rfl
        · rw [if_neg hd, if_neg hd]
          exact ht.values c

/-- **THE LOOP** holds what every row says. -/
theorem refold_holds {rows : List (K × V)} {t : Folded C S V}
    (h : refold fold spell rows = .ok t) : Holds fold spell rows t := by
  -- On the rows left, carrying what the rows walked have put in the tables.
  have hrun : ∀ (rest walked : List (K × V)) (t₀ : Folded C S V), Holds fold spell walked t₀ →
      rest.foldlM (Folded.step fold spell) t₀ = .ok t → Holds fold spell (walked ++ rest) t := by
    intro rest
    induction rest with
    | nil =>
        intro walked t₀ ht₀ hrest
        rw [List.append_nil, ← Except.ok.inj hrest]
        exact ht₀
    | cons row rest ih =>
        intro walked t₀ ht₀ hrest
        rw [List.foldlM_cons] at hrest
        cases hstep : Folded.step fold spell t₀ row with
        | error e =>
            rw [hstep] at hrest
            exact nomatch hrest
        | ok t₁ =>
            rw [hstep] at hrest
            have hall := ih (walked ++ [row]) t₁ (ht₀.step hstep) hrest
            rwa [List.append_assoc] at hall
  exact hrun rows [] ⟨∅, ∅⟩ 
    ⟨fun row hrow => (nomatch hrow), fun c => by simp [standing], fun c => by simp [standing]⟩ h

/-- What stops the loop is a key that stands for nothing. -/
theorem refold_error {rows : List (K × V)} {e : ε} (h : refold fold spell rows = .error e) :
    ∃ row ∈ rows, fold row.1 = .error e := by
  have hrun : ∀ (rest : List (K × V)) (t₀ : Folded C S V),
      rest.foldlM (Folded.step fold spell) t₀ = .error e → ∃ row ∈ rest, fold row.1 = .error e := by
    intro rest
    induction rest with
    | nil => exact fun t₀ h => nomatch h
    | cons row rest ih =>
        intro t₀ hrest
        rw [List.foldlM_cons, Folded.step] at hrest
        cases hrow : fold row.1 with
        | error e' =>
            rw [hrow] at hrest
            exact ⟨row, List.mem_cons_self,
              hrow.trans (congrArg _ (Except.error.inj hrest))⟩
        | ok c =>
            rw [hrow] at hrest
            obtain ⟨row', hmem, hrow'⟩ := ih _ hrest
            exact ⟨row', List.mem_cons_of_mem _ hmem, hrow'⟩
  exact hrun rows _ h

/-! ## Collisions -/

variable {rows : List (K × V)} {t : Folded C S V}

/-- The key reported is one the rows spell twice, with all its spellings in turn. -/
theorem Holds.of_collision (ht : Holds fold spell rows t) {c : C} {spelled : List S}
    (h : t.collision = some (c, spelled)) :
    spelled = ((standing fold rows c).map fun row => spell row.1) ∧ 1 < spelled.length := by
  have hmem := List.mem_of_find?_eq_some h
  rw [mem_toList_iff, ht.spellings c] at hmem
  have hmany := List.find?_some h
  refine ⟨?_, of_decide_eq_true hmany⟩
  by_cases hnone : standing fold rows c = []
  · rw [if_pos hnone] at hmem
    exact nomatch hmem
  · rw [if_neg hnone] at hmem
    exact (Option.some.inj hmem).symm

/-- Where none is reported, no key is spelled twice. -/
theorem Holds.of_no_collision (ht : Holds fold spell rows t) (h : t.collision = none) (c : C) :
    (standing fold rows c).length ≤ 1 := by
  by_cases hnone : standing fold rows c = []
  · rw [hnone]
    exact Nat.zero_le 1
  · have hmem : (c, (standing fold rows c).map fun row => spell row.1) ∈ t.spellings.toList := by
      rw [mem_toList_iff, ht.spellings c, if_neg hnone]
    have hfew := List.find?_eq_none.mp h _ hmem
    rw [decide_eq_true_eq, List.length_map] at hfew
    exact Nat.le_of_not_lt hfew

/-- **WITHOUT A COLLISION** what stands under a key is what its one row says. -/
theorem Holds.values_eq_some_iff (ht : Holds fold spell rows t) (h : t.collision = none) {c : C}
    {v : V} : t.values[c]? = some v ↔ ∃ k, (k, v) ∈ rows ∧ fold k = .ok c := by
  have hone := ht.of_no_collision h c
  have hrows : ∀ k w, (k, w) ∈ standing fold rows c ↔ (k, w) ∈ rows ∧ fold k = .ok c :=
    fun k w => mem_standing fold
  rw [ht.values c]
  generalize standing fold rows c = found at hone hrows
  match found, hone with
  | [], _ =>
      refine iff_of_false (fun hno => nomatch hno) ?_
      rintro ⟨k, hk⟩
      exact nomatch (hrows k v).mpr hk
  | [row], _ =>
      constructor
      · intro hv
        refine ⟨row.1, (hrows row.1 v).mp ?_⟩
        rw [← Option.some.inj hv]
        exact List.mem_singleton.mpr rfl
      · rintro ⟨k, hk⟩
        have hrow := List.mem_singleton.mp ((hrows k v).mpr hk)
        rw [← hrow]
        rfl

/-- A table whose keys stand for themselves is the table folded. -/
theorem Holds.of_fixed {table : Table C V} {fold : C → Except ε C} {spell : C → S}
    (ht : Holds fold spell table.toList t) (hfix : ∀ c ∈ table, fold c = .ok c) :
    t.collision = none ∧ t.values = table := by
  have hstanding : ∀ (c : C) (row : C × V), row ∈ standing fold table.toList c ↔
      row.1 = c ∧ table[c]? = some row.2 := by
    intro c row
    rw [mem_standing, mem_toList_iff]
    constructor
    · rintro ⟨hrow, hfold⟩
      have hself := hfix row.1 (mem_iff_exists.mpr ⟨row.2, hrow⟩)
      have heq : row.1 = c := Except.ok.inj (hself.symm.trans hfold)
      exact ⟨heq, heq ▸ hrow⟩
    · rintro ⟨rfl, hrow⟩
      exact ⟨hrow, hfix row.1 (mem_iff_exists.mpr ⟨row.2, hrow⟩)⟩
  have hnodup : table.toList.Nodup :=
    Std.ExtTreeMap.distinct_keys_toList.imp fun {a b} hne heq =>
      hne (by rw [heq, Std.ReflOrd.compare_self])
  -- Two rows of one key would be one row twice, and a table has each row once.
  have hone : ∀ c, (standing fold table.toList c).length ≤ 1 := by
    intro c
    have hsame : ∀ row ∈ standing fold table.toList c,
        ∀ row' ∈ standing fold table.toList c, row = row' := by
      intro row hrow row' hrow'
      obtain ⟨hkey, hval⟩ := (hstanding c row).mp hrow
      obtain ⟨hkey', hval'⟩ := (hstanding c row').mp hrow'
      exact Prod.ext (hkey.trans hkey'.symm) (Option.some.inj (hval.symm.trans hval'))
    have hsub : (standing fold table.toList c).Nodup := hnodup.filter _
    match hlist : standing fold table.toList c with
    | [] => exact Nat.zero_le 1
    | [_] => exact Nat.le_refl 1
    | a :: b :: rest =>
        rw [hlist] at hsame hsub
        have heq := hsame a List.mem_cons_self b (List.mem_cons_of_mem _ List.mem_cons_self)
        exact absurd (heq ▸ List.mem_cons_self) (List.nodup_cons.mp hsub).1
  have hnone : t.collision = none := by
    refine List.find?_eq_none.mpr fun spelled hmem => ?_
    obtain ⟨c, list⟩ := spelled
    rw [mem_toList_iff, ht.spellings c] at hmem
    rw [decide_eq_true_eq]
    by_cases hempty : standing fold table.toList c = []
    · rw [if_pos hempty] at hmem
      exact nomatch hmem
    · rw [if_neg hempty] at hmem
      rw [← Option.some.inj hmem, List.length_map]
      exact Nat.not_lt.mpr (hone c)
  refine ⟨hnone, ext_of_iff fun c v => ?_⟩
  rw [ht.values_eq_some_iff hnone]
  constructor
  · rintro ⟨k, hk, hfold⟩
    exact ((hstanding c (k, v)).mp ((mem_standing fold).mpr ⟨hk, hfold⟩)).2
  · intro hv
    exact ⟨c, (mem_standing fold).mp ((hstanding c (c, v)).mpr ⟨rfl, hv⟩)⟩

end Keyed
