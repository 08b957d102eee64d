import Bestiario.RateBook

/-! # What a quote is

    The lookup sorts, files by publisher, searches and walks back.  What it finds
    is said here without any of the four: the newest snapshot of the instance
    asked about, among those of the last five minutes that carry the currency,
    and the newest of anybody's where that instance has none.

    Two snapshots of one publisher and one second are told apart by the order
    they came in and by nothing else; where there are no such two, the answer is
    a function of the set. -/

namespace RateBook

open Keyed

variable {F : Type} {snapshots : List (Snapshot F)} {pubkey fiat : String} {atTs : Int}

/-! ## The specification -/

/-- Published in the five minutes up to the instant, with a rate for the currency. -/
def Carries (fiat : String) (atTs : Int) (s : Snapshot F) (rate : F) : Prop :=
  usable atTs s = true ∧ s.rates[fiat]? = some rate

/-- The instance's own newest. -/
structure OwnQuote (snapshots : List (Snapshot F)) (pubkey fiat : String) (atTs : Int)
    (quote : RateQuote F) (s : Snapshot F) : Prop where
  mem : s ∈ snapshots
  publisher : s.pubkey = pubkey
  carries : Carries fiat atTs s quote.rate
  newest : ∀ other ∈ snapshots, other.pubkey = pubkey → (∃ rate, Carries fiat atTs other rate) →
    other.publishedAt ≤ s.publishedAt
  age : quote.ageSecs = atTs - s.publishedAt
  source : quote.source = .ownInstance

/-- The newest of anybody else's, of one second the greatest publisher's; the instance
    itself has none. -/
structure Fallback (snapshots : List (Snapshot F)) (pubkey fiat : String) (atTs : Int)
    (quote : RateQuote F) (s : Snapshot F) : Prop where
  mem : s ∈ snapshots
  publisher : s.pubkey ≠ pubkey
  carries : Carries fiat atTs s quote.rate
  none : ∀ other ∈ snapshots, other.pubkey = pubkey → ¬ ∃ rate, Carries fiat atTs other rate
  newest : ∀ other ∈ snapshots, (∃ rate, Carries fiat atTs other rate) → oldest other ≤ oldest s
  age : quote.ageSecs = atTs - s.publishedAt
  source : quote.source = .fallback s.pubkey

/-! ## The walk back -/

/-- From the back of a list in order, the first hit is the greatest there is. -/
theorem findSome?_reverse_spec {α β κ : Type} [Preorder κ] {key : α → κ} {f : α → Option β}
    {xs : List α} (h : xs.Pairwise fun x y => key x ≤ key y) {b : β}
    (hfound : xs.reverse.findSome? f = some b) :
    ∃ x ∈ xs, f x = some b ∧ ∀ y ∈ xs, (f y).isSome = true → key y ≤ key x := by
  induction xs using List.reverseRecOn with
  | nil => exact nomatch hfound
  | append_singleton xs x ih =>
      obtain ⟨hxs, -, hlast⟩ := List.pairwise_append.mp h
      rw [List.reverse_append, List.reverse_singleton, List.singleton_append,
        List.findSome?_cons] at hfound
      have hself : x ∈ xs ++ [x] := List.mem_append_right _ (List.mem_singleton.mpr rfl)
      cases hx : f x with
      | some b' =>
          rw [hx] at hfound
          refine ⟨x, hself, hx.trans hfound, fun y hy _ => ?_⟩
          rcases List.mem_append.mp hy with hy | hy
          · exact hlast y hy x (List.mem_singleton.mpr rfl)
          · rw [List.mem_singleton.mp hy]
      | none =>
          rw [hx] at hfound
          obtain ⟨y, hy, hfy, hmax⟩ := ih hxs hfound
          refine ⟨y, List.mem_append_left _ hy, hfy, fun z hz hsome => ?_⟩
          rcases List.mem_append.mp hz with hz | hz
          · exact hmax z hz hsome
          · rw [List.mem_singleton.mp hz, hx] at hsome
            exact nomatch hsome

theorem sorted_oldest (snapshots : List (Snapshot F)) :
    (sorted snapshots).Pairwise fun a b => oldest a ≤ oldest b :=
  insertionSort_ascending oldest snapshots

theorem mem_sorted {s : Snapshot F} : s ∈ sorted snapshots ↔ s ∈ snapshots :=
  (List.perm_insertionSort (fun a b => oldest a ≤ oldest b) snapshots).mem_iff

/-- The snapshots at a publisher's positions are the publisher's. -/
theorem at_positionsOf (book : Book F) (pubkey : String) :
    book.at (positionsOf pubkey book.snapshots.zipIdx)
      = book.snapshots.filter fun s => s.pubkey == pubkey := by
  have hlook : ∀ entry ∈ book.snapshots.zipIdx, book.snapshots[entry.2]? = some entry.1 :=
    fun entry hmem => List.mem_zipIdx_iff_getElem?.mp hmem
  have hown : ∀ entry ∈ book.snapshots.zipIdx.filter (fun entry => entry.1.pubkey == pubkey),
      book.snapshots[entry.2]? = some entry.1 :=
    fun entry hmem => hlook entry (List.mem_of_mem_filter hmem)
  calc book.at (positionsOf pubkey book.snapshots.zipIdx)
      = (book.snapshots.zipIdx.filter fun entry => entry.1.pubkey == pubkey).filterMap
          fun entry => book.snapshots[entry.2]? := by
        rw [Book.at, positionsOf, List.filterMap_map]
        rfl
    _ = (book.snapshots.zipIdx.filter fun entry => entry.1.pubkey == pubkey).map Prod.fst := by
        rw [List.filterMap_congr hown]
        exact congrFun List.filterMap_eq_map' _
    _ = book.snapshots.filter fun s => s.pubkey == pubkey := by
        have hfst : (book.snapshots.zipIdx.map Prod.fst) = book.snapshots :=
          List.zipIdx_map_fst 0 _
        nth_rewrite 2 [← hfst]
        rw [List.filter_map]
        rfl

/-- **THE NEWEST AT SOME POSITIONS**: what the walk finds there. -/
theorem newest_spec {book : Book F} (hbook : book.snapshots = sorted snapshots)
    {positions : List Nat} (h : positions.Pairwise (· < ·)) {s : Snapshot F} {rate : F}
    (hfound : book.newest positions fiat atTs = some (s, rate)) :
    s ∈ book.at positions ∧ Carries fiat atTs s rate
      ∧ ∀ other ∈ book.at positions, (∃ rate, Carries fiat atTs other rate) →
        oldest other ≤ oldest s := by
  have hordered : (book.at positions).Pairwise fun a b => oldest a ≤ oldest b := by
    rw [Book.at, List.pairwise_filterMap]
    refine h.imp fun {i j} hij a ha b hb => ?_
    obtain ⟨hi, rfl⟩ := List.getElem?_eq_some_iff.mp ha
    obtain ⟨hj, rfl⟩ := List.getElem?_eq_some_iff.mp hb
    have hall := sorted_oldest snapshots
    rw [← hbook] at hall
    exact List.pairwise_iff_getElem.mp hall i j hi hj hij
  rw [book.newest_eq h] at hfound
  obtain ⟨x, hx, hquoted, hmax⟩ := findSome?_reverse_spec (hordered.filter _) hfound
  obtain ⟨hmem, husable⟩ := List.mem_filter.mp hx
  rw [quoted, Option.map_eq_some_iff] at hquoted
  obtain ⟨r, hr, heq⟩ := hquoted
  cases heq
  refine ⟨hmem, ⟨husable, hr⟩, ?_⟩
  rintro other hother ⟨r', hin, hr'⟩
  refine hmax other (List.mem_filter.mpr ⟨hother, hin⟩) ?_
  rw [quoted, hr']
  rfl

theorem newest_none {book : Book F} {positions : List Nat} (h : positions.Pairwise (· < ·))
    (hnone : book.newest positions fiat atTs = none) :
    ∀ s ∈ book.at positions, ¬ ∃ rate, Carries fiat atTs s rate := by
  rintro s hs ⟨rate, husable, hrate⟩
  have hsome := (book.newest_isSome_iff h fiat atTs).mpr
    ⟨s, hs, husable, Option.isSome_iff_exists.mpr ⟨rate, hrate⟩⟩
  rw [hnone] at hsome
  exact nomatch hsome

/-! ## The result -/

/-- Looked up among the instance's own positions. -/
theorem own_spec (snapshots : List (Snapshot F)) (pubkey fiat : String) (atTs : Int) :
    (∀ s rate, ((Book.new snapshots).byPubkey[pubkey]?).bind (fun positions =>
        (Book.new snapshots).newest positions fiat atTs) = some (s, rate) →
      OwnQuote snapshots pubkey fiat atTs ⟨rate, atTs - s.publishedAt, .ownInstance⟩ s)
    ∧ (((Book.new snapshots).byPubkey[pubkey]?).bind (fun positions =>
        (Book.new snapshots).newest positions fiat atTs) = none →
      ∀ s ∈ snapshots, s.pubkey = pubkey → ¬ ∃ rate, Carries fiat atTs s rate) := by
  have hmine : ∀ s, s ∈ (Book.new snapshots).at (positionsOf pubkey (sorted snapshots).zipIdx)
      ↔ s ∈ snapshots ∧ s.pubkey = pubkey := by
    intro s
    have hat : (Book.new snapshots).at (positionsOf pubkey (sorted snapshots).zipIdx)
        = (sorted snapshots).filter fun s => s.pubkey == pubkey :=
      at_positionsOf (Book.new snapshots) pubkey
    rw [hat, List.mem_filter, beq_iff_eq, mem_sorted]
  have hasc := positionsOf_ascending pubkey (sorted snapshots)
  cases hpos : (Book.new snapshots).byPubkey[pubkey]? with
  | none =>
      refine ⟨fun _ _ h => (nomatch h), fun _ s hs hp => ?_⟩
      have hempty : positionsOf pubkey (sorted snapshots).zipIdx = [] := by
        rw [← foldl_file]
        show (((Book.new snapshots).byPubkey[pubkey]?).getD []) = []
        rw [hpos]
        rfl
      have hin := (hmine s).mpr ⟨hs, hp⟩
      rw [hempty] at hin
      exact nomatch hin
  | some positions =>
      have heq : positions = positionsOf pubkey (sorted snapshots).zipIdx :=
        (Book.new snapshots).filed pubkey positions hpos
      subst heq
      constructor
      · intro s rate hfound
        obtain ⟨hs, hcarries, hmax⟩ := newest_spec rfl hasc hfound
        obtain ⟨hmem, hp⟩ := (hmine s).mp hs
        refine ⟨hmem, hp, hcarries, fun other hother hop hcarried => ?_, rfl, rfl⟩
        rcases ascAsc_le_iff.mp (hmax other ((hmine other).mpr ⟨hother, hop⟩) hcarried) with
          hlt | ⟨hsame, -⟩
        · exact hlt.le
        · exact hsame.le
      · intro hnone s hs hp
        exact newest_none hasc hnone s ((hmine s).mpr ⟨hs, hp⟩)

/-- A book of the same snapshots in another order is the same book. -/
theorem new_eq_of_perm {snapshots' : List (Snapshot F)} (h : snapshots.Perm snapshots')
    (hunique : (snapshots.map fun s => (s.pubkey, s.publishedAt)).Nodup) :
    Book.new snapshots = Book.new snapshots' := by
  have hsame : sorted snapshots = sorted snapshots' := by
    have hperm : (sorted snapshots).Perm (sorted snapshots') :=
      ((List.perm_insertionSort _ snapshots).trans h).trans
        (List.perm_insertionSort _ snapshots').symm
    refine hperm.eq_of_pairwise (fun a b ha hb hab hba => ?_) (sorted_oldest snapshots)
      (sorted_oldest snapshots')
    have hkey : (a.publishedAt, a.pubkey) = (b.publishedAt, b.pubkey) :=
      toLex_inj.mp (le_antisymm hab hba)
    obtain ⟨hat, hp⟩ := Prod.mk.inj hkey
    refine List.inj_on_of_nodup_map hunique (mem_sorted.mp ha)
      (h.mem_iff.mpr (mem_sorted.mp hb)) ?_
    rw [hat, hp]
  simp only [Book.new, hsame]

/-- **THE LOOKUP IS ITS SPECIFICATION.**  A quote is the instance's own newest, or where
    it has none the newest of another's; there is none iff nobody has one; its age
    lies within the bound; and snapshots of distinct publishers or seconds may come
    in any order. -/
theorem rateAt_spec (snapshots : List (Snapshot F)) (pubkey fiat : String) (atTs : Int) :
    (∀ quote, (Book.new snapshots).rateAt pubkey fiat atTs = some quote →
        ((∃ s, OwnQuote snapshots pubkey fiat atTs quote s)
          ∨ ∃ s, Fallback snapshots pubkey fiat atTs quote s)
        ∧ 0 ≤ quote.ageSecs ∧ quote.ageSecs ≤ maxAgeSecs)
      ∧ ((Book.new snapshots).rateAt pubkey fiat atTs = none
        ↔ ∀ s ∈ snapshots, ¬ ∃ rate, Carries fiat atTs s rate)
      ∧ ((snapshots.map fun s => (s.pubkey, s.publishedAt)).Nodup →
        ∀ snapshots', snapshots.Perm snapshots' →
          (Book.new snapshots').rateAt pubkey fiat atTs
            = (Book.new snapshots).rateAt pubkey fiat atTs) := by
  obtain ⟨hown, hnone⟩ := own_spec snapshots pubkey fiat atTs
  refine ⟨fun quote hquote => ?_, ?_, fun hunique snapshots' hperm => ?_⟩
  · have hage : ∀ (s : Snapshot F) rate, Carries fiat atTs s rate →
        0 ≤ atTs - s.publishedAt ∧ atTs - s.publishedAt ≤ maxAgeSecs := by
      rintro s rate ⟨husable, -⟩
      rw [usable, Bool.and_eq_true, decide_eq_true_iff, decide_eq_true_iff] at husable
      omega
    rw [Book.rateAt] at hquote
    cases hfound : ((Book.new snapshots).byPubkey[pubkey]?).bind fun positions =>
        (Book.new snapshots).newest positions fiat atTs with
    | some found =>
        obtain ⟨s, rate⟩ := found
        rw [hfound] at hquote
        cases hquote
        have hspec := hown s rate hfound
        exact ⟨.inl ⟨s, hspec⟩, hage s rate hspec.carries⟩
    | none =>
        rw [hfound] at hquote
        obtain ⟨⟨s, rate⟩, hothers, heq⟩ := Option.map_eq_some_iff.mp hquote
        cases heq
        have hasc : (Book.new snapshots).everyone.Pairwise (· < ·) := List.pairwise_lt_range
        obtain ⟨hs, hcarries, hmax⟩ := newest_spec rfl hasc hothers
        rw [Book.at_everyone] at hs hmax
        have hmem : s ∈ snapshots := mem_sorted.mp hs
        refine ⟨.inr ⟨s, hmem, fun hp => hnone hfound s hmem hp ⟨rate, hcarries⟩, hcarries,
          hnone hfound, fun other hother => hmax other (mem_sorted.mpr hother), rfl, rfl⟩,
          hage s rate hcarries⟩
  · rw [← Option.not_isSome_iff_eq_none, rateAt_isSome_iff]
    constructor
    · rintro hnot s hs ⟨rate, husable, hrate⟩
      exact hnot ⟨s, hs, husable, Option.isSome_iff_exists.mpr ⟨rate, hrate⟩⟩
    · rintro hall ⟨s, hs, husable, hsome⟩
      obtain ⟨rate, hrate⟩ := Option.isSome_iff_exists.mp hsome
      exact hall s hs ⟨rate, husable, hrate⟩
  · rw [new_eq_of_perm hperm hunique]

end RateBook
