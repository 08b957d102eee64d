import Mathlib.Data.Set.Function
import Mathlib.Order.Defs.LinearOrder

/-! # Which version is in force

    Versions of one thing carry a clock and a rank; the LOWER the rank, the
    later the version.  The version in force at an instant is the latest one
    stamped at or before it.

    Someone who keeps only some of the versions received answers like someone
    who keeps them all as long as the two AGREE.  A version may be dropped when
    a kept one COVERS it.  A version may be added when it is TIMELY: it does not
    become the answer at an instant where a dropped one, naming another value,
    already was. -/

namespace Timeline

variable {V τ κ β : Type} [LinearOrder τ] [LinearOrder κ]

/-- Versions ordered by a clock, ties broken by a rank. -/
structure Clock (V τ κ : Type) [LinearOrder τ] [LinearOrder κ] where
  stamp : V → τ
  rank : V → κ
  stamp_le : ∀ {v w}, rank v ≤ rank w → stamp w ≤ stamp v

variable {C : Clock V τ κ} {val : V → β} {kept received : Set V} {t : τ} {e v w : V}

/-- `v` is in force at `t`. -/
structure Latest (C : Clock V τ κ) (versions : Set V) (t : τ) (v : V) : Prop where
  mem : v ∈ versions
  due : C.stamp v ≤ t
  first : ∀ w ∈ versions, C.stamp w ≤ t → C.rank v ≤ C.rank w

/-- Where the full history has an answer, the kept one gives the same. -/
def Agree (C : Clock V τ κ) (val : V → β) (kept received : Set V) : Prop :=
  ∀ t w, Latest C received t w → ∃ v, Latest C kept t v ∧ val v = val w

/-- `v` is kept and says what `e` says, with nothing kept in between. -/
structure Covers (C : Clock V τ κ) (val : V → β) (kept : Set V) (v e : V) : Prop where
  mem : v ∈ kept
  due : C.stamp v ≤ C.stamp e
  same : val v = val e
  first : ∀ k ∈ kept, C.rank e ≤ C.rank k → C.rank v ≤ C.rank k

/-- A version received before `e`, later than `e`, and in force at its own
    instant names the same value, unless something kept stands between. -/
def Timely (C : Clock V τ κ) (val : V → β) (kept received : Set V) (e : V) : Prop :=
  ∀ w, Latest C received (C.stamp w) w → C.rank w ≤ C.rank e →
    (∀ k ∈ kept, C.stamp k ≤ C.stamp w → C.rank e ≤ C.rank k) → val w = val e

/-- What is in force at `t` is in force from its own instant on. -/
theorem Latest.own (h : Latest C received t w) : Latest C received (C.stamp w) w :=
  ⟨h.mem, le_refl _, fun k hk hdue => h.first k hk (hdue.trans h.due)⟩

theorem Latest.of_insert (h : Latest C (insert e received) t w) (hw : w ∈ received) :
    Latest C received t w :=
  ⟨hw, h.due, fun k hk hdue => h.first k (Set.mem_insert_of_mem e hk) hdue⟩

theorem Latest.insert (h : Latest C received t w)
    (hle : C.stamp e ≤ t → C.rank w ≤ C.rank e) :
    Latest C (insert e received) t w := by
  refine ⟨Set.mem_insert_of_mem e h.mem, h.due, ?_⟩
  rintro k (rfl | hk) hdue
  · exact hle hdue
  · exact h.first k hk hdue

theorem Latest.unique (hinj : Set.InjOn C.rank kept) (hv : Latest C kept t v)
    (hw : Latest C kept t w) : v = w :=
  hinj hv.mem hw.mem (le_antisymm (hv.first w hw.mem hw.due) (hw.first v hv.mem hv.due))

/-- **DROPPING A COVERED VERSION CHANGES NO ANSWER.** -/
theorem Agree.drop (hsub : kept ⊆ received) (h : Agree C val kept received)
    (hv : Covers C val kept v e) : Agree C val kept (insert e received) := by
  intro t w hw
  rcases hw.mem with rfl | hmem
  · refine ⟨v, ⟨hv.mem, hv.due.trans hw.due, fun k hk hdue => ?_⟩, hv.same⟩
    exact hv.first k hk (hw.first k (Set.mem_insert_of_mem w (hsub hk)) hdue)
  · exact h t w (hw.of_insert hmem)

/-- A covered version is never late. -/
theorem Covers.timely (hinj : Set.InjOn C.rank kept) (h : Agree C val kept received)
    (hv : Covers C val kept v e) : Timely C val kept received e := by
  intro w hw hle hfirst
  obtain ⟨u, hu, hval⟩ := h _ w hw
  have hdue : C.stamp v ≤ C.stamp w := hv.due.trans (C.stamp_le hle)
  have huv : u = v := by
    refine hinj hu.mem hv.mem (le_antisymm (hu.first v hv.mem hdue) ?_)
    exact hv.first u hu.mem (hfirst u hu.mem hu.due)
  rw [← hval, huv, hv.same]

/-- **ADDING A VERSION KEEPS THE ANSWERS EXACTLY WHEN IT IS TIMELY.** -/
theorem Agree.insert_iff (hsub : kept ⊆ received)
    (hinj : Set.InjOn C.rank (insert e kept)) (h : Agree C val kept received) :
    Agree C val (insert e kept) (insert e received) ↔ Timely C val kept received e := by
  constructor
  · intro h' w hw hle hfirst
    obtain ⟨v, hv, hval⟩ := h' _ w (hw.insert fun _ => hle)
    have he : Latest C (insert e kept) (C.stamp w) e := by
      refine ⟨Set.mem_insert e kept, C.stamp_le hle, ?_⟩
      rintro k (rfl | hk) hdue
      · exact le_refl _
      · exact hfirst k hk hdue
    rw [← hval, hv.unique hinj he]
  · intro htimely t w hw
    rcases hw.mem with rfl | hmem
    · exact ⟨w, ⟨Set.mem_insert w kept, hw.due,
        fun k hk hdue => hw.first k (Set.insert_subset_insert hsub hk) hdue⟩, rfl⟩
    · have hold := hw.of_insert hmem
      obtain ⟨v, hv, hval⟩ := h t w hold
      -- The kept answer stands unless `e` is due and later than it.
      by_cases hlate : C.stamp e ≤ t ∧ C.rank e < C.rank v
      · obtain ⟨hdue, hlt⟩ := hlate
        have hfirst : ∀ k ∈ kept, C.stamp k ≤ t → C.rank e ≤ C.rank k :=
          fun k hk hkt => (hlt.trans_le (hv.first k hk hkt)).le
        refine ⟨e, ⟨Set.mem_insert e kept, hdue, ?_⟩, ?_⟩
        · rintro k (rfl | hk) hkt
          · exact le_refl _
          · exact hfirst k hk hkt
        · exact (htimely w hold.own (hw.first e (Set.mem_insert e received) hdue)
            fun k hk hkw => hfirst k hk (hkw.trans hw.due)).symm
      · refine ⟨v, hv.insert fun hdue => ?_, hval⟩
        exact not_lt.mp fun hlt => hlate ⟨hdue, hlt⟩

end Timeline
