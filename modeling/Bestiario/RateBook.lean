import Bestiario.Repo

/-! # The rate lookup

    `crates/stats/src/rates.rs`: what was one bitcoin worth, in this currency,
    at this instant, as far as this instance knew?  A book is the snapshots
    oldest first, with the positions of each publisher's own; a lookup is a
    binary search to the instant and a walk back across the five minutes that
    can qualify.

    The arithmetic is exact: a parsed `published_at` is never negative, so
    `at_ts - published_at` fits an `i64` whenever it is computed. -/

namespace RateBook

open Keyed Parse

variable {F : Type}

/-- `MAX_AGE_SECS`. -/
def maxAgeSecs : Int := 300

/-- One rate snapshot as the lookup sees it. -/
structure Snapshot (F : Type) where
  pubkey : String
  publishedAt : Int
  rates : Table String F

/-- The columns of a stored snapshot the lookup reads. -/
def Snapshot.of (row : RateSnapshot F) : Snapshot F :=
  ⟨row.pubkey, row.publishedAt, row.rates⟩

/-- Where a quote came from: the instance asked about, or another. -/
inductive RateSource where
  | ownInstance
  | fallback (pubkey : String)
  deriving DecidableEq

/-- A rate, and what qualifies it. -/
structure RateQuote (F : Type) where
  rate : F
  ageSecs : Int
  source : RateSource
  deriving DecidableEq

/-! ## The index -/

/-- The position of one snapshot, filed under its publisher. -/
def file (byPubkey : Table String (List Nat)) (entry : Snapshot F × Nat) :
    Table String (List Nat) :=
  byPubkey.insert entry.1.pubkey ((byPubkey[entry.1.pubkey]?).getD [] ++ [entry.2])

/-- The positions of each publisher's snapshots, ascending. -/
def index (snapshots : List (Snapshot F)) : Table String (List Nat) :=
  snapshots.zipIdx.foldl file ∅

/-- The positions at which `pubkey` published. -/
def positionsOf (pubkey : String) (entries : List (Snapshot F × Nat)) : List Nat :=
  (entries.filter fun entry => entry.1.pubkey == pubkey).map Prod.snd

theorem foldl_file (entries : List (Snapshot F × Nat)) (pubkey : String) :
    ((entries.foldl file ∅)[pubkey]?).getD [] = positionsOf pubkey entries := by
  induction entries using List.reverseRecOn with
  | nil => rfl
  | append_singleton entries entry ih =>
      rw [List.foldl_append, List.foldl_cons, List.foldl_nil, file, getElem?_insert_eq,
        positionsOf, List.filter_append, List.map_append, ← positionsOf, ← ih]
      by_cases hpub : entry.1.pubkey = pubkey
      · rw [if_pos hpub, hpub]
        simp [hpub]
      · rw [if_neg hpub]
        simp [hpub]

/-! ## The book -/

/-- Every snapshot known, ready to be asked: oldest first, with the positions
    of each publisher and of everyone. -/
structure Book (F : Type) where
  snapshots : List (Snapshot F)
  byPubkey : Table String (List Nat)
  everyone : List Nat
  ordered : snapshots.Pairwise fun a b => a.publishedAt ≤ b.publishedAt
  filed : ∀ pubkey positions, byPubkey[pubkey]? = some positions →
    positions = positionsOf pubkey snapshots.zipIdx
  whole : everyone = List.range snapshots.length

/-- `ORDER BY published_at, pubkey`. -/
def oldest : Snapshot F → ℤ ×ₗ String := ascAsc Snapshot.publishedAt Snapshot.pubkey

/-- The stable sort `new` begins with. -/
def sorted (snapshots : List (Snapshot F)) : List (Snapshot F) :=
  snapshots.insertionSort fun a b => oldest a ≤ oldest b

theorem sorted_pairwise (snapshots : List (Snapshot F)) :
    (sorted snapshots).Pairwise fun a b => a.publishedAt ≤ b.publishedAt := by
  refine (insertionSort_ascending oldest snapshots).imp ?_
  intro a b h
  rcases ascAsc_le_iff.mp h with hlt | ⟨heq, -⟩
  · exact hlt.le
  · exact heq.le

/-- `RateBook::new`. -/
def Book.new (snapshots : List (Snapshot F)) : Book F where
  snapshots := sorted snapshots
  byPubkey := index (sorted snapshots)
  everyone := List.range (sorted snapshots).length
  ordered := sorted_pairwise snapshots
  filed := by
    intro pubkey positions h
    rw [← foldl_file, ← index, h]
    rfl
  whole := rfl

/-- `partition_point`: where the positions that satisfy `p` end, on a slice
    they come first in. -/
def partitionPoint {α : Type} (p : α → Bool) (xs : List α) : Nat :=
  (xs.takeWhile p).length

/-- The rate `snapshot` carries for `fiat`, with the snapshot. -/
def quoted (fiat : String) (snapshot : Snapshot F) : Option (Snapshot F × F) :=
  (snapshot.rates[fiat]?).map fun rate => (snapshot, rate)

/-- `newest`: among `positions`, the newest snapshot within the bound before
    `atTs` that quotes `fiat`. -/
def Book.newest (book : Book F) (positions : List Nat) (fiat : String) (atTs : Int) :
    Option (Snapshot F × F) :=
  let until' := partitionPoint
    (fun i => (book.snapshots[i]?).all fun s => decide (s.publishedAt ≤ atTs)) positions
  ((((positions.take until').reverse).filterMap fun i => book.snapshots[i]?).takeWhile
    fun s => decide (atTs - s.publishedAt ≤ maxAgeSecs)).findSome? (quoted fiat)

/-- `rate_at`: from `pubkey` first, from any other instance when it has none
    that qualifies. -/
def Book.rateAt (book : Book F) (pubkey fiat : String) (atTs : Int) :
    Option (RateQuote F) :=
  let own := (book.byPubkey[pubkey]?).bind fun positions =>
    book.newest positions fiat atTs
  match own with
  | some (snapshot, rate) => some ⟨rate, atTs - snapshot.publishedAt, .ownInstance⟩
  | none =>
      (book.newest book.everyone fiat atTs).map fun (snapshot, rate) =>
        ⟨rate, atTs - snapshot.publishedAt, .fallback snapshot.pubkey⟩

/-! ## The walk is a filter -/

/-- On a list whose `p` come first, walking while `p` holds selects them all. -/
theorem takeWhile_eq_filter {α : Type} {p : α → Bool} {xs : List α}
    (h : xs.Pairwise fun x y => p y = true → p x = true) : xs.takeWhile p = xs.filter p := by
  induction xs with
  | nil => rfl
  | cons x xs ih =>
      obtain ⟨hx, hxs⟩ := List.pairwise_cons.mp h
      cases hp : p x with
      | true => rw [List.takeWhile_cons_of_pos hp, List.filter_cons_of_pos hp, ih hxs]
      | false =>
          have hnone : xs.filter p = [] := by
            rw [List.filter_eq_nil_iff]
            intro y hy hpy
            rw [hx y hy hpy] at hp
            exact nomatch hp
          rw [List.takeWhile_cons_of_neg (by rw [hp]; exact Bool.false_ne_true),
            List.filter_cons_of_neg (by rw [hp]; exact Bool.false_ne_true), hnone]

/-- Published at or before `atTs`, and within the bound of it. -/
def usable (atTs : Int) (s : Snapshot F) : Bool :=
  decide (s.publishedAt ≤ atTs) && decide (atTs - s.publishedAt ≤ maxAgeSecs)

/-- The snapshots at `positions`. -/
def Book.at (book : Book F) (positions : List Nat) : List (Snapshot F) :=
  positions.filterMap fun i => book.snapshots[i]?

theorem Book.at_ordered (book : Book F) {positions : List Nat}
    (h : positions.Pairwise (· < ·)) :
    (book.at positions).Pairwise fun a b => a.publishedAt ≤ b.publishedAt := by
  rw [Book.at, List.pairwise_filterMap]
  refine h.imp ?_
  intro i j hij a ha b hb
  obtain ⟨hi, rfl⟩ := List.getElem?_eq_some_iff.mp ha
  obtain ⟨hj, rfl⟩ := List.getElem?_eq_some_iff.mp hb
  exact List.pairwise_iff_getElem.mp book.ordered i j hi hj hij

/-- **THE BINARY SEARCH AND THE WALK** find the last usable snapshot that quotes
    the currency. -/
theorem Book.newest_eq (book : Book F) {positions : List Nat}
    (h : positions.Pairwise (· < ·)) (fiat : String) (atTs : Int) :
    book.newest positions fiat atTs
      = (((book.at positions).filter (usable atTs)).reverse).findSome? (quoted fiat) := by
  have hordered := book.at_ordered h
  have htake : positions.take (partitionPoint (fun i => (book.snapshots[i]?).all
      fun s => decide (s.publishedAt ≤ atTs)) positions)
      = positions.takeWhile fun i => (book.snapshots[i]?).all
        fun s => decide (s.publishedAt ≤ atTs) :=
    (List.prefix_iff_eq_take.mp (List.takeWhile_prefix _)).symm
  have hbefore : (book.at positions).takeWhile (fun s => decide (s.publishedAt ≤ atTs))
      = (book.at positions).filter fun s => decide (s.publishedAt ≤ atTs) := by
    refine takeWhile_eq_filter (hordered.imp fun hab hb => ?_)
    rw [decide_eq_true_iff] at hb ⊢
    exact hab.trans hb
  have hwalk : (((book.at positions).filter fun s =>
        decide (s.publishedAt ≤ atTs)).reverse).takeWhile
          (fun s => decide (atTs - s.publishedAt ≤ maxAgeSecs))
      = (((book.at positions).filter fun s => decide (s.publishedAt ≤ atTs)).reverse).filter
          fun s => decide (atTs - s.publishedAt ≤ maxAgeSecs) := by
    refine takeWhile_eq_filter (List.pairwise_reverse.mpr
      ((hordered.filter _).imp fun hab ha => ?_))
    rw [decide_eq_true_iff] at ha ⊢
    omega
  rw [Book.newest, htake, List.filterMap_reverse, ← List.takeWhile_filterMap]
  change List.findSome? _ (List.takeWhile _ (List.takeWhile _ (book.at positions)).reverse) = _
  rw [hbefore, hwalk, List.filter_reverse, List.filter_filter]
  congr 2
  refine List.filter_congr fun s _ => ?_
  rw [usable, Bool.and_comm]

theorem Book.at_everyone (book : Book F) : book.at book.everyone = book.snapshots := by
  have hall : (List.range book.snapshots.length).map (fun i => book.snapshots[i]?)
      = book.snapshots.map some :=
    List.ext_getElem (by simp) fun i hi hi' => by simp at hi ⊢
  calc book.at book.everyone
      = ((List.range book.snapshots.length).map fun i => book.snapshots[i]?).filterMap id := by
        rw [Book.at, book.whole, List.filterMap_map]
        rfl
    _ = book.snapshots := by rw [hall]; simp

/-- Someone has a usable quote. -/
def Priced (snapshots : List (Snapshot F)) (fiat : String) (atTs : Int) : Prop :=
  ∃ s ∈ snapshots, usable atTs s = true ∧ (s.rates[fiat]?).isSome = true

theorem Book.newest_isSome_iff (book : Book F) {positions : List Nat}
    (h : positions.Pairwise (· < ·)) (fiat : String) (atTs : Int) :
    (book.newest positions fiat atTs).isSome = true
      ↔ Priced (book.at positions) fiat atTs := by
  rw [book.newest_eq h, List.isSome_findSome?]
  simp only [List.any_eq_true, List.mem_reverse, List.mem_filter, quoted, Option.isSome_map]
  constructor
  · rintro ⟨s, ⟨hs, husable⟩, hrate⟩
    exact ⟨s, hs, husable, hrate⟩
  · rintro ⟨s, hs, husable, hrate⟩
    exact ⟨s, ⟨hs, husable⟩, hrate⟩

theorem positionsOf_ascending (pubkey : String) (snapshots : List (Snapshot F)) :
    (positionsOf pubkey snapshots.zipIdx).Pairwise (· < ·) := by
  have hsub : (positionsOf pubkey snapshots.zipIdx).Sublist
      (snapshots.zipIdx.map Prod.snd) := List.filter_sublist.map Prod.snd
  rw [List.zipIdx_map_snd] at hsub
  exact List.Pairwise.sublist hsub List.pairwise_lt_range'

/-- **A QUOTE EXISTS IFF SOMEONE HAS ONE**: whoever is asked about, the fallback
    reaches every publisher. -/
theorem rateAt_isSome_iff (snapshots : List (Snapshot F)) (pubkey fiat : String)
    (atTs : Int) :
    ((Book.new snapshots).rateAt pubkey fiat atTs).isSome = true
      ↔ Priced snapshots fiat atTs := by
  have hperm : (sorted snapshots).Perm snapshots :=
    List.perm_insertionSort (fun a b => oldest a ≤ oldest b) snapshots
  have heveryone : ((Book.new snapshots).newest (Book.new snapshots).everyone fiat
      atTs).isSome = true ↔ Priced snapshots fiat atTs := by
    have hasc : (Book.new snapshots).everyone.Pairwise (· < ·) := List.pairwise_lt_range
    rw [Book.newest_isSome_iff _ hasc, Book.at_everyone]
    simp only [Priced, Book.new, hperm.mem_iff]
  rw [Book.rateAt]
  cases hown : ((Book.new snapshots).byPubkey[pubkey]?).bind fun positions =>
      (Book.new snapshots).newest positions fiat atTs with
  | none => simpa using heveryone
  | some quote =>
      -- What the instance itself published is among everyone's.
      obtain ⟨positions, hpos, hnewest⟩ := Option.bind_eq_some_iff.mp hown
      have hasc : positions.Pairwise (· < ·) := by
        rw [(Book.new snapshots).filed pubkey positions hpos]
        exact positionsOf_ascending pubkey _
      have hsome : ((Book.new snapshots).newest positions fiat atTs).isSome = true := by
        rw [hnewest]
        rfl
      obtain ⟨s, hs, hpriced⟩ := (Book.newest_isSome_iff _ hasc fiat atTs).mp hsome
      obtain ⟨i, -, hi⟩ := List.mem_filterMap.mp hs
      exact iff_of_true rfl ⟨s, hperm.mem_iff.mp (List.mem_of_getElem? hi), hpriced⟩

end RateBook
