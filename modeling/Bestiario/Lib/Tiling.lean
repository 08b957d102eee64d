import Mathlib

/-! # Cutting the line

    Half-open intervals `[a, b)` that TILE a longer one: none empty, each
    starting where the one before it ends.  Whatever is counted over the tiles
    adds up to the count over the whole, since every point lies in one tile and
    in one only.

    A `Ruler` is where tiles come from: the line cut into cells, each known by
    the point it opens at. -/

namespace Tiling

/-- A half-open interval. -/
abbrev Interval : Type := Int × Int

/-- A point inside an interval. -/
def Inside (t : Int) (w : Interval) : Prop := w.1 ≤ t ∧ t < w.2

/-- Whether a point, when there is one, is inside. -/
def holds (w : Interval) (t : Option Int) : Bool :=
  t.any fun t => decide (w.1 ≤ t) && decide (t < w.2)

theorem holds_some {w : Interval} {t : Int} : holds w (some t) = true ↔ Inside t w := by
  simp [holds, Inside]

/-- The intervals tile `[lo, hi)`. -/
def Tiles : Int → List Interval → Int → Prop
  | lo, [], hi => lo = hi
  | lo, w :: rest, hi => w.1 = lo ∧ w.1 < w.2 ∧ Tiles w.2 rest hi

theorem Tiles.le {l : List Interval} {lo hi : Int} (h : Tiles lo l hi) : lo ≤ hi := by
  induction l generalizing lo with
  | nil => exact le_of_eq h
  | cons w rest ih =>
      obtain ⟨hstart, hlt, hrest⟩ := h
      have := ih hrest
      omega

theorem Tiles.append {l l' : List Interval} {lo mid hi : Int} (h : Tiles lo l mid)
    (h' : Tiles mid l' hi) : Tiles lo (l ++ l') hi := by
  induction l generalizing lo with
  | nil =>
      cases (show lo = mid from h)
      exact h'
  | cons w rest ih => exact ⟨h.1, h.2.1, ih h.2.2⟩

/-- Every tile lies inside the whole. -/
theorem Tiles.bounds {l : List Interval} {lo hi : Int} (h : Tiles lo l hi) {w : Interval}
    (hw : w ∈ l) : lo ≤ w.1 ∧ w.1 < w.2 ∧ w.2 ≤ hi := by
  induction l generalizing lo with
  | nil => cases hw
  | cons v rest ih =>
      obtain ⟨hstart, hlt, hrest⟩ := h
      rcases List.mem_cons.mp hw with rfl | hmem
      · exact ⟨le_of_eq hstart.symm, hlt, hrest.le⟩
      · have := ih hrest hmem
        omega

/-- Two parts of an interval hold, together, what the interval holds. -/
theorem countP_split {α : Type} (xs : List α) (at' : α → Option Int) {lo mid hi : Int}
    (h : lo ≤ mid) (h' : mid ≤ hi) :
    xs.countP (fun x => holds (lo, hi) (at' x))
      = xs.countP (fun x => holds (lo, mid) (at' x))
        + xs.countP (fun x => holds (mid, hi) (at' x)) := by
  induction xs with
  | nil => rfl
  | cons x xs ih =>
      simp only [List.countP_cons, ih]
      cases hx : at' x with
      | none => simp [holds]
      | some t =>
          simp only [holds_some, Inside]
          split <;> split <;> split <;> omega

/-- **COUNTS ADD UP OVER TILES.** -/
theorem Tiles.sum_countP {α : Type} {l : List Interval} {lo hi : Int} (h : Tiles lo l hi)
    (xs : List α) (at' : α → Option Int) :
    (l.map fun w => xs.countP fun x => holds w (at' x)).sum
      = xs.countP fun x => holds (lo, hi) (at' x) := by
  induction l generalizing lo with
  | nil =>
      cases (show lo = hi from h)
      refine (List.countP_eq_zero.mpr fun x _ hx => ?_).symm
      cases hat : at' x with
      | none => simp [holds, hat] at hx
      | some t =>
          rw [hat, holds_some] at hx
          exact absurd hx.2 (not_lt.mpr hx.1)
  | cons w rest ih =>
      obtain ⟨hstart, hlt, hrest⟩ := h
      obtain ⟨a, b⟩ := w
      cases (show a = lo from hstart)
      rw [List.map_cons, List.sum_cons, ih hrest]
      exact (countP_split xs at' (le_of_lt hlt) hrest.le).symm

/-- **A POINT LIES IN A TILE**, and in no two. -/
theorem Tiles.inside {l : List Interval} {lo hi : Int} (h : Tiles lo l hi) {t : Int}
    (ht : Inside t (lo, hi)) : ∃ w ∈ l, Inside t w := by
  induction l generalizing lo with
  | nil =>
      cases (show lo = hi from h)
      exact absurd ht.2 (not_lt.mpr ht.1)
  | cons w rest ih =>
      obtain ⟨hstart, hlt, hrest⟩ := h
      by_cases hin : t < w.2
      · exact ⟨w, List.mem_cons_self, hstart ▸ ht.1, hin⟩
      · obtain ⟨v, hv, hinside⟩ := ih hrest ⟨not_lt.mp hin, ht.2⟩
        exact ⟨v, List.mem_cons_of_mem w hv, hinside⟩

/-! ## The integers of an interval -/

/-- The integers from `a` to `b`, both included. -/
def ints (a b : Int) : List Int := (List.range (b + 1 - a).toNat).map fun k : Nat => a + (k : Int)

theorem ints_of_lt {a b : Int} (h : b < a) : ints a b = [] := by
  rw [ints, show (b + 1 - a).toNat = 0 by omega]
  rfl

theorem ints_cons {a b : Int} (h : a ≤ b) : ints a b = a :: ints (a + 1) b := by
  rw [ints, show (b + 1 - a).toNat = (b + 1 - (a + 1)).toNat + 1 by omega,
    List.range_succ_eq_map, List.map_cons, List.map_map, ints]
  refine List.cons_eq_cons.mpr ⟨by simp, List.map_congr_left fun k _ => ?_⟩
  simp only [Function.comp_apply, Nat.succ_eq_add_one, Nat.cast_add, Nat.cast_one]
  omega

@[simp] theorem mem_ints {a b i : Int} : i ∈ ints a b ↔ a ≤ i ∧ i ≤ b := by
  simp only [ints, List.mem_map, List.mem_range]
  constructor
  · rintro ⟨k, hk, rfl⟩
    omega
  · intro h
    exact ⟨(i - a).toNat, by omega, by omega⟩

theorem getElem?_ints {a b i : Int} {k : Nat} :
    (ints a b)[k]? = some i ↔ i = a + k ∧ i ≤ b := by
  rw [ints, List.getElem?_map]
  by_cases hk : k < (b + 1 - a).toNat
  · rw [List.getElem?_range hk, Option.map_some, Option.some_inj]
    omega
  · rw [List.getElem?_eq_none (by simpa using hk), Option.map_none]
    constructor
    · intro h
      cases h
    · intro h
      omega

theorem ints_pairwise (a b : Int) : (ints a b).Pairwise (· < ·) := by
  rw [ints, List.pairwise_map]
  exact List.pairwise_lt_range.imp fun h => by omega

theorem ints_append {a b c : Int} (h : a ≤ b + 1) (h' : b ≤ c) :
    ints a b ++ ints (b + 1) c = ints a c := by
  induction hn : (b + 1 - a).toNat generalizing a with
  | zero =>
      rw [ints_of_lt (show b < a by omega), List.nil_append, show b + 1 = a by omega]
  | succ n ih =>
      rw [ints_cons (show a ≤ b by omega), List.cons_append, ih (by omega) (by omega),
        ints_cons (show a ≤ c by omega)]

/-! ## Scales -/

/-- The line cut into numbered cells: where each opens, and which one holds a
    point. -/
structure Scale where
  start : Int → Int
  index : Int → Int
  start_lt : ∀ i, start i < start (i + 1)
  start_index : ∀ t, start (index t) ≤ t
  lt_start : ∀ t, t < start (index t + 1)

namespace Scale

variable (S : Scale)

theorem start_strictMono : StrictMono S.start := strictMono_int_of_lt_succ S.start_lt

/-- Each cell takes at least one point. -/
theorem start_add {i j : Int} (h : i ≤ j) : S.start i + (j - i) ≤ S.start j := by
  induction hn : (j - i).toNat generalizing j with
  | zero =>
      have hij : j = i := by omega
      rw [hij]
      omega
  | succ n ih =>
      have hprev := ih (show i ≤ j - 1 by omega) (by omega)
      have hstep := S.start_lt (j - 1)
      rw [show j - 1 + 1 = j by omega] at hstep
      omega

variable {S}

/-- **ONE CELL HOLDS A POINT.** -/
theorem index_eq {i t : Int} (h : S.start i ≤ t) (h' : t < S.start (i + 1)) :
    S.index t = i := by
  have hlo : S.index t < i + 1 :=
    S.start_strictMono.lt_iff_lt.mp (lt_of_le_of_lt (S.start_index t) h')
  have hhi : i < S.index t + 1 :=
    S.start_strictMono.lt_iff_lt.mp (lt_of_le_of_lt h (S.lt_start t))
  omega

theorem index_start (i : Int) : S.index (S.start i) = i :=
  index_eq (le_refl _) (S.start_lt i)

/-- A point is past an opening exactly when its cell is not before it. -/
theorem start_le_iff {i t : Int} : S.start i ≤ t ↔ i ≤ S.index t := by
  constructor
  · intro h
    have := S.start_strictMono.lt_iff_lt.mp (lt_of_le_of_lt h (S.lt_start t))
    omega
  · intro h
    exact le_trans (S.start_strictMono.monotone h) (S.start_index t)

theorem index_mono {s t : Int} (h : s ≤ t) : S.index s ≤ S.index t :=
  start_le_iff.mp (le_trans (S.start_index s) h)

/-- A cell, clipped to an interval. -/
def cell (S : Scale) (lo hi i : Int) : Interval := (max (S.start i) lo, min (S.start (i + 1)) hi)

/-- The cells an interval meets. -/
def cells (S : Scale) (lo hi : Int) : List Int := ints (S.index lo) (S.index (hi - 1))

/-- A cell the interval meets keeps something of it, and ends where the next
    one starts. -/
theorem cell_spec {lo hi i : Int} (hlt : lo < hi) (h : S.index lo ≤ i)
    (h' : i ≤ S.index (hi - 1)) :
    (S.cell lo hi i).1 < (S.cell lo hi i).2
      ∧ (i < S.index (hi - 1) → (S.cell lo hi i).2 = (S.cell lo hi (i + 1)).1)
      ∧ (i = S.index (hi - 1) → (S.cell lo hi i).2 = hi) := by
  have hopen : S.start i ≤ hi - 1 := start_le_iff.mpr h'
  have hafter : lo < S.start (i + 1) :=
    lt_of_lt_of_le (S.lt_start lo) (S.start_strictMono.monotone (by omega))
  have hlen := S.start_lt i
  refine ⟨by simp only [cell]; omega, ?_, ?_⟩
  · intro hmore
    have hnext : S.start (i + 1) ≤ hi - 1 := start_le_iff.mpr (by omega)
    simp only [cell]
    omega
  · rintro rfl
    have hlast := S.lt_start (hi - 1)
    simp only [cell]
    omega

theorem tiles_from {lo hi : Int} (hlt : lo < hi) {i : Int} (h : S.index lo ≤ i)
    (h' : i ≤ S.index (hi - 1)) :
    Tiles (S.cell lo hi i).1 ((ints i (S.index (hi - 1))).map (S.cell lo hi)) hi := by
  obtain ⟨hne, hmore, hlast⟩ := cell_spec hlt h h'
  induction hn : (S.index (hi - 1) - i).toNat generalizing i with
  | zero =>
      have heq : i = S.index (hi - 1) := by omega
      rw [ints_cons h', ints_of_lt (by omega), List.map_cons, List.map_nil]
      exact ⟨rfl, hne, hlast heq⟩
  | succ n ih =>
      have hlt' : i < S.index (hi - 1) := by omega
      obtain ⟨hne', hmore', hlast'⟩ := cell_spec hlt (show S.index lo ≤ i + 1 by omega) hlt'
      rw [ints_cons h', List.map_cons]
      refine ⟨rfl, hne, ?_⟩
      rw [hmore hlt']
      exact ih (by omega) hlt' hne' hmore' hlast' (by omega)

/-- **THE CELLS AN INTERVAL MEETS TILE IT.** -/
theorem tiles {lo hi : Int} (hlt : lo < hi) :
    Tiles lo ((S.cells lo hi).map (S.cell lo hi)) hi := by
  have hall := tiles_from (S := S) hlt (le_refl _) (index_mono (show lo ≤ hi - 1 by omega))
  have hfirst : (S.cell lo hi (S.index lo)).1 = lo := max_eq_right (S.start_index lo)
  rw [hfirst] at hall
  exact hall

/-- Whatever a clipped cell holds, the cell holds. -/
theorem index_of_cell {lo hi i t : Int} (h : Inside t (S.cell lo hi i)) : S.index t = i := by
  obtain ⟨hlo, hhi⟩ := h
  simp only [cell, max_le_iff, lt_min_iff] at hlo hhi
  exact index_eq hlo.1 hhi.1

/-- Between two openings no cell is clipped. -/
theorem cell_whole {a b i : Int} (h : a ≤ i) (h' : i < b) :
    S.cell (S.start a) (S.start b) i = (S.start i, S.start (i + 1)) := by
  have hlo := S.start_strictMono.monotone h
  have hhi := S.start_strictMono.monotone (show i + 1 ≤ b by omega)
  simp only [cell, max_eq_left hlo, min_eq_left hhi]

/-- The point before an opening is in the cell before. -/
theorem index_start_sub_one (i : Int) : S.index (S.start i - 1) = i - 1 := by
  have hlt := S.start_lt (i - 1)
  rw [show i - 1 + 1 = i by omega] at hlt
  refine index_eq (by omega) ?_
  rw [show i - 1 + 1 = i by omega]
  omega

theorem cells_whole {a b : Int} : S.cells (S.start a) (S.start b) = ints a (b - 1) := by
  rw [cells, index_start, index_start_sub_one]

/-- Whole cells tile what lies between two openings. -/
theorem tiles_whole {a b : Int} (hab : a < b) :
    Tiles (S.start a) ((ints a (b - 1)).map fun i => (S.start i, S.start (i + 1)))
      (S.start b) := by
  have htiles := tiles (S := S) (S.start_strictMono hab)
  rw [cells_whole] at htiles
  have hcells : (ints a (b - 1)).map (S.cell (S.start a) (S.start b))
      = (ints a (b - 1)).map fun i => (S.start i, S.start (i + 1)) := by
    refine List.map_congr_left fun i hi => ?_
    obtain ⟨hlo, hhi⟩ := mem_ints.mp hi
    exact cell_whole hlo (by omega)
  exact hcells ▸ htiles

/-! ## Cells that open in an interval -/

/-- The cells that open in `[lo, hi)`, none of them clipped. -/
def opening (S : Scale) (lo hi : Int) : List Int := ints (S.index (lo - 1) + 1) (S.index (hi - 1))

@[simp] theorem mem_opening {lo hi i : Int} :
    i ∈ S.opening lo hi ↔ lo ≤ S.start i ∧ S.start i < hi := by
  have hlo : S.start i ≤ lo - 1 ↔ i ≤ S.index (lo - 1) := start_le_iff
  have hhi : S.start i ≤ hi - 1 ↔ i ≤ S.index (hi - 1) := start_le_iff
  rw [opening, mem_ints]
  omega

theorem opening_nodup (lo hi : Int) : (S.opening lo hi).Nodup :=
  (ints_pairwise _ _).imp fun h => ne_of_lt h

/-- A cell opens on one side of a cut or on the other. -/
theorem opening_append {lo mid hi : Int} (h : lo ≤ mid) (h' : mid ≤ hi) :
    S.opening lo mid ++ S.opening mid hi = S.opening lo hi := by
  have hlo : S.index (lo - 1) ≤ S.index (mid - 1) := index_mono (by omega)
  have hhi : S.index (mid - 1) ≤ S.index (hi - 1) := index_mono (by omega)
  exact ints_append (by omega) hhi

/-- Between two openings, the cells that open are the cells there are. -/
theorem opening_whole {a b : Int} : S.opening (S.start a) (S.start b) = ints a (b - 1) := by
  rw [opening, index_start_sub_one, index_start_sub_one, show a - 1 + 1 = a by omega]

end Scale

end Tiling
