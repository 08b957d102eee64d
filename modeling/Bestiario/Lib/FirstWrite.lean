import Bestiario.Lib.Table

/-! # Tables where the first write counts

    `INSERT … ON CONFLICT DO NOTHING`, many times over: a list of rows written
    one after another, each under its own key.  What the table holds under a key
    is the FIRST row of that key, so a run of writes in any grouping is one list
    of rows and a lookup is a search of that list. -/

namespace Keyed

variable {K V : Type} [LinearOrder K] {key : V → K}

/-- Rows written one after another; a key already there keeps its row. -/
def writeAll (key : V → K) (list : List V) (t : Table K V) : Table K V :=
  list.foldl (fun t row => t.insertIfNew (key row) row) t

theorem writeAll_append (list later : List V) (t : Table K V) :
    writeAll key (list ++ later) t = writeAll key later (writeAll key list t) :=
  List.foldl_append

/-- **THE FIRST WRITE COUNTS**: a key that is there keeps its row, another gets
    the first of the list. -/
theorem getElem?_writeAll (list : List V) (t : Table K V) (k : K) :
    (writeAll key list t)[k]? = match t[k]? with
      | some row => some row
      | none => list.find? fun row => decide (key row = k) := by
  induction list generalizing t with
  | nil =>
      show t[k]? = _
      cases t[k]? with
      | none => rfl
      | some row => rfl
  | cons row rest ih =>
      show (writeAll key rest (t.insertIfNew (key row) row))[k]? = _
      rw [ih, getElem?_insertIfNew_eq]
      by_cases hk : key row = k
      · rw [List.find?_cons_of_pos (by rw [decide_eq_true_eq]; exact hk)]
        subst hk
        cases t[key row]? with
        | none => simp
        | some old => simp
      · rw [List.find?_cons_of_neg (by rw [decide_eq_true_eq]; exact hk)]
        cases t[k]? with
        | none => simp [hk]
        | some old => simp [hk]

/-- What is there stays as it is. -/
theorem writeAll_of_some {list : List V} {t : Table K V} {k : K} {row : V}
    (h : t[k]? = some row) : (writeAll key list t)[k]? = some row := by
  rw [getElem?_writeAll, h]

end Keyed
