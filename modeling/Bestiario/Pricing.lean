import Bestiario.Coverage
import Bestiario.Quotes
import Bestiario.Snapshot
import Bestiario.Sums
import Bestiario.Thinning
import Bestiario.Windowed

/-! # What a publication prices from

    `load::rates::book`, and `load` of `commands/publish.rs`, which reads it: the
    snapshots published from five minutes before the archive's floor up to the
    clock.

    The figures reach past both ends.  A window document goes back a fixed number
    of days whatever the floor; a row is covered when it overlaps the archive; the
    row of today runs to midnight.  An order there is priced as by the whole table
    exactly when what its quote is taken from is in sight, and
    `same_prices_iff` says so of everything the volume report publishes. -/

namespace RateBook

open Keyed

variable {F : Type} {snapshots : List (Snapshot F)} {pubkey fiat : String} {atTs : Int}

/-! ## The lookup, without the index -/

/-- The last usable snapshot among `mine` that quotes the currency. -/
def newestOf (mine : Snapshot F → Bool) (snapshots : List (Snapshot F)) (fiat : String)
    (atTs : Int) : Option (Snapshot F × F) :=
  ((snapshots.filter fun s => mine s && usable atTs s).reverse).findSome? (quoted fiat)

theorem newest_eq_newestOf (book : Book F) {positions : List Nat}
    (h : positions.Pairwise (· < ·)) {mine : Snapshot F → Bool}
    (hat : book.at positions = book.snapshots.filter mine) :
    book.newest positions fiat atTs = newestOf mine book.snapshots fiat atTs := by
  rw [book.newest_eq h, hat, List.filter_filter, newestOf]
  congr 2
  exact List.filter_congr fun s _ => Bool.and_comm _ _

/-- **A LOOKUP IS TWO SEARCHES**: among the instance's own, then among all. -/
theorem rateAt_eq (snapshots : List (Snapshot F)) (pubkey fiat : String) (atTs : Int) :
    (Book.new snapshots).rateAt pubkey fiat atTs
      = (newestOf (fun s => s.pubkey == pubkey) (sorted snapshots) fiat atTs).elim
          ((newestOf (fun _ => true) (sorted snapshots) fiat atTs).map fun found =>
            ⟨found.2, atTs - found.1.publishedAt, .fallback found.1.pubkey⟩)
          fun found => some ⟨found.2, atTs - found.1.publishedAt, .ownInstance⟩ := by
  have hasc := positionsOf_ascending pubkey (sorted snapshots)
  have hmine : (Book.new snapshots).at (positionsOf pubkey (sorted snapshots).zipIdx)
      = (sorted snapshots).filter fun s => s.pubkey == pubkey :=
    at_positionsOf (Book.new snapshots) pubkey
  have hown : ((Book.new snapshots).byPubkey[pubkey]?).bind (fun positions =>
        (Book.new snapshots).newest positions fiat atTs)
      = newestOf (fun s => s.pubkey == pubkey) (sorted snapshots) fiat atTs := by
    cases hpos : (Book.new snapshots).byPubkey[pubkey]? with
    | some positions =>
        have heq : positions = positionsOf pubkey (sorted snapshots).zipIdx :=
          (Book.new snapshots).filed pubkey positions hpos
        rw [heq]
        exact newest_eq_newestOf (Book.new snapshots) hasc hmine
    | none =>
        -- A publisher that was never filed has no position, and no snapshot.
        have hempty : positionsOf pubkey (sorted snapshots).zipIdx = [] := by
          rw [← foldl_file]
          show (((Book.new snapshots).byPubkey[pubkey]?).getD []) = []
          rw [hpos]
          rfl
        have hnone : (Book.new snapshots).newest (positionsOf pubkey (sorted snapshots).zipIdx) fiat
            atTs = newestOf (fun s => s.pubkey == pubkey) (sorted snapshots) fiat atTs :=
          newest_eq_newestOf (Book.new snapshots) hasc hmine
        rw [hempty] at hnone
        exact hnone
  have hall : (Book.new snapshots).newest (Book.new snapshots).everyone fiat atTs
      = newestOf (fun _ => true) (sorted snapshots) fiat atTs := by
    refine newest_eq_newestOf (Book.new snapshots) List.pairwise_lt_range ?_
    exact (Book.at_everyone _).trans (List.filter_eq_self.mpr fun _ _ => rfl).symm
  rw [Book.rateAt, hown, hall]
  cases newestOf (fun s => s.pubkey == pubkey) (sorted snapshots) fiat atTs with
  | none => exact congrArg (fun f => Option.map f _) (funext fun _ => rfl)
  | some found => exact rfl

/-! ## What a search finds -/

section Search

variable {mine : Snapshot F → Bool} {ordered : List (Snapshot F)}
  (hordered : ordered.Pairwise fun a b => a.publishedAt ≤ b.publishedAt)

/-- A snapshot the search can stop at. -/
def Quotes (mine : Snapshot F → Bool) (fiat : String) (atTs : Int) (s : Snapshot F) : Prop :=
  mine s = true ∧ ∃ rate, Carries fiat atTs s rate

/-- The searched snapshots that carry the currency are those the walk can stop at. -/
theorem quotes_iff {s : Snapshot F} :
    (s ∈ ordered.filter (fun s => mine s && usable atTs s) ∧ (quoted fiat s).isSome = true)
      ↔ s ∈ ordered ∧ Quotes mine fiat atTs s := by
  rw [List.mem_filter, Bool.and_eq_true, quoted, Option.isSome_map, Option.isSome_iff_exists,
    Quotes]
  constructor
  · rintro ⟨⟨hs, hmine, husable⟩, rate, hrate⟩
    exact ⟨hs, hmine, rate, husable, hrate⟩
  · rintro ⟨hs, hmine, rate, husable, hrate⟩
    exact ⟨⟨hs, hmine, husable⟩, rate, hrate⟩

theorem newestOf_eq_none_iff :
    newestOf mine ordered fiat atTs = none ↔ ∀ s ∈ ordered, ¬ Quotes mine fiat atTs s := by
  rw [newestOf, List.findSome?_eq_none_iff]
  constructor
  · intro hnone s hs hquotes
    obtain ⟨hin, hsome⟩ := quotes_iff.mpr ⟨hs, hquotes⟩
    rw [hnone s (List.mem_reverse.mpr hin)] at hsome
    exact nomatch hsome
  · intro hnone s hs
    rw [← Option.not_isSome_iff_eq_none]
    intro hsome
    obtain ⟨hin, hquotes⟩ := quotes_iff.mp ⟨List.mem_reverse.mp hs, hsome⟩
    exact hnone s hin hquotes

include hordered in
theorem newestOf_spec {s : Snapshot F} {rate : F}
    (hfound : newestOf mine ordered fiat atTs = some (s, rate)) :
    s ∈ ordered ∧ Quotes mine fiat atTs s
      ∧ ∀ other ∈ ordered, Quotes mine fiat atTs other → other.publishedAt ≤ s.publishedAt := by
  obtain ⟨x, hx, hquoted, hmax⟩ :=
    findSome?_reverse_spec (hordered.filter fun s => mine s && usable atTs s) hfound
  have hsome : (quoted fiat x).isSome = true := by
    rw [hquoted]
    rfl
  have hself : x = s := by
    rw [quoted, Option.map_eq_some_iff] at hquoted
    obtain ⟨r, -, heq⟩ := hquoted
    exact (Prod.mk.inj heq).1
  obtain ⟨hin, hquotes⟩ := quotes_iff.mp ⟨hx, hsome⟩
  rw [hself] at hin hquotes hmax
  refine ⟨hin, hquotes, fun other hother hq => ?_⟩
  obtain ⟨hin', hsome'⟩ := quotes_iff.mpr ⟨hother, hq⟩
  exact hmax other hin' hsome'

/-- From the back of a list in order, dropping what lies outside two bounds keeps
    the first hit, if no hit lies above and one lies inside where any does. -/
theorem findSome?_reverse_between {α β : Type} {key : α → Int} {f : α → Option β} {lo hi : Int}
    {xs : List α} (h : xs.Pairwise fun x y => key x ≤ key y)
    (hhi : ∀ x ∈ xs, (f x).isSome = true → key x < hi)
    (hlo : ∀ x ∈ xs, (f x).isSome = true → ∃ y ∈ xs, (f y).isSome = true ∧ lo ≤ key y) :
    (xs.filter fun x => decide (lo ≤ key x) && decide (key x < hi)).reverse.findSome? f
      = xs.reverse.findSome? f := by
  induction xs using List.reverseRecOn with
  | nil => rfl
  | append_singleton xs x ih =>
      obtain ⟨hxs, -, hlast⟩ := List.pairwise_append.mp h
      have hself : x ∈ xs ++ [x] := List.mem_append_right _ (List.mem_singleton.mpr rfl)
      rw [List.filter_append, List.reverse_append, List.reverse_append, List.reverse_singleton,
        List.singleton_append, List.findSome?_cons, List.findSome?_append]
      cases hx : f x with
      | some b =>
          have hsome : (f x).isSome = true := by
            rw [hx]
            rfl
          obtain ⟨y, hy, -, hfloor⟩ := hlo x hself hsome
          -- The last is the greatest, so it is above the floor if any hit is.
          have hle : key y ≤ key x := by
            rcases List.mem_append.mp hy with hy | hy
            · exact hlast y hy x (List.mem_singleton.mpr rfl)
            · rw [List.mem_singleton.mp hy]
          have hkeep : (decide (lo ≤ key x) && decide (key x < hi)) = true := by
            rw [Bool.and_eq_true, decide_eq_true_iff, decide_eq_true_iff]
            exact ⟨hfloor.trans hle, hhi x hself hsome⟩
          have hfirst : ([x].filter fun x => decide (lo ≤ key x) && decide (key x < hi)) = [x] :=
            List.filter_eq_self.mpr fun z hz => List.mem_singleton.mp hz ▸ hkeep
          rw [hfirst, List.reverse_singleton, List.findSome?_cons, hx]
          rfl
      | none =>
          have hdrop : ([x].filter fun x =>
              decide (lo ≤ key x) && decide (key x < hi)).reverse.findSome? f = none := by
            rw [List.findSome?_eq_none_iff]
            intro z hz
            have hzx := List.mem_singleton.mp (List.mem_of_mem_filter (List.mem_reverse.mp hz))
            rw [hzx, hx]
          rw [hdrop, Option.none_or]
          refine ih hxs (fun z hz => hhi z (List.mem_append_left _ hz)) fun z hz hsome => ?_
          obtain ⟨y, hy, hfy, hfloor⟩ := hlo z (List.mem_append_left _ hz) hsome
          rcases List.mem_append.mp hy with hy | hy
          · exact ⟨y, hy, hfy, hfloor⟩
          · rw [List.mem_singleton.mp hy, hx] at hfy
            exact nomatch hfy

end Search

/-! ## A book of some of the snapshots -/

/-- The snapshots published in `[from', until')`. -/
def between (from' until' : Int) (snapshots : List (Snapshot F)) : List (Snapshot F) :=
  snapshots.filter fun s => decide (from' ≤ s.publishedAt) && decide (s.publishedAt < until')

theorem mem_between {from' until' : Int} {s : Snapshot F} :
    s ∈ between from' until' snapshots
      ↔ s ∈ snapshots ∧ from' ≤ s.publishedAt ∧ s.publishedAt < until' := by
  rw [between, List.mem_filter, Bool.and_eq_true, decide_eq_true_iff, decide_eq_true_iff]

theorem sorted_between (from' until' : Int) (snapshots : List (Snapshot F)) :
    sorted (between from' until' snapshots) = between from' until' (sorted snapshots) :=
  insertionSort_filter oldest _ snapshots

/-- A snapshot a quote can be taken from: it carries the currency, and is the
    instance's own unless none of those does. -/
structure Candidate (snapshots : List (Snapshot F)) (pubkey fiat : String) (atTs : Int)
    (s : Snapshot F) : Prop where
  mem : s ∈ snapshots
  carries : ∃ rate, Carries fiat atTs s rate
  preferred : s.pubkey = pubkey
    ∨ ∀ other ∈ snapshots, other.pubkey = pubkey → ¬ ∃ rate, Carries fiat atTs other rate

/-- None of them was published from `until'` on; and if there is one, there is one
    that was published from `from'` on. -/
structure InSight (from' until' : Int) (snapshots : List (Snapshot F)) (pubkey fiat : String)
    (atTs : Int) : Prop where
  ceiling : ∀ s, Candidate snapshots pubkey fiat atTs s → s.publishedAt < until'
  floor : ∀ s, Candidate snapshots pubkey fiat atTs s →
    ∃ s', Candidate snapshots pubkey fiat atTs s' ∧ from' ≤ s'.publishedAt

/-- An instant between the bounds has everything it could be priced from in sight. -/
theorem inSight_of_between {from' until' : Int} (hfrom : from' ≤ atTs) (huntil : atTs < until') :
    InSight (from' - maxAgeSecs) until' snapshots pubkey fiat atTs where
  ceiling := by
    rintro s ⟨-, ⟨rate, husable, -⟩, -⟩
    rw [usable, Bool.and_eq_true, decide_eq_true_iff, decide_eq_true_iff] at husable
    omega
  floor := by
    intro s hs
    obtain ⟨rate, husable, -⟩ := hs.carries
    rw [usable, Bool.and_eq_true, decide_eq_true_iff, decide_eq_true_iff] at husable
    exact ⟨s, hs, by omega⟩

section Bounded

variable {from' until' : Int}

/-- A search whose hits are in sight is the search of the whole. -/
theorem newestOf_between {mine : Snapshot F → Bool}
    (hceiling : ∀ s ∈ snapshots, Quotes mine fiat atTs s → s.publishedAt < until')
    (hfloor : ∀ s ∈ snapshots, Quotes mine fiat atTs s →
      ∃ s' ∈ snapshots, Quotes mine fiat atTs s' ∧ from' ≤ s'.publishedAt) :
    newestOf mine (sorted (between from' until' snapshots)) fiat atTs
      = newestOf mine (sorted snapshots) fiat atTs := by
  rw [sorted_between, newestOf, between, List.filter_filter]
  have hcomm : (sorted snapshots).filter (fun s => (mine s && usable atTs s)
        && (decide (from' ≤ s.publishedAt) && decide (s.publishedAt < until')))
      = ((sorted snapshots).filter fun s => mine s && usable atTs s).filter fun s =>
          decide (from' ≤ s.publishedAt) && decide (s.publishedAt < until') := by
    rw [List.filter_filter]
    exact List.filter_congr fun s _ => Bool.and_comm _ _
  rw [hcomm]
  refine findSome?_reverse_between ((sorted_pairwise snapshots).filter _) ?_ ?_
  · intro s hs hsome
    obtain ⟨hin, hquotes⟩ := quotes_iff.mp ⟨hs, hsome⟩
    exact hceiling s (mem_sorted.mp hin) hquotes
  · intro s hs hsome
    obtain ⟨hin, hquotes⟩ := quotes_iff.mp ⟨hs, hsome⟩
    obtain ⟨s', hin', hquotes', hle⟩ := hfloor s (mem_sorted.mp hin) hquotes
    obtain ⟨hs', hsome'⟩ := quotes_iff.mpr ⟨mem_sorted.mpr hin', hquotes'⟩
    exact ⟨s', hs', hsome', hle⟩

/-- What is found among fewer snapshots is found among all. -/
theorem newestOf_mem {mine : Snapshot F → Bool} {s : Snapshot F} {rate : F}
    (h : newestOf mine (sorted (between from' until' snapshots)) fiat atTs = some (s, rate)) :
    s ∈ snapshots ∧ Quotes mine fiat atTs s ∧ from' ≤ s.publishedAt ∧ s.publishedAt < until' := by
  obtain ⟨hs, hquotes, -⟩ := newestOf_spec (sorted_pairwise _) h
  obtain ⟨hin, hfrom, huntil⟩ := mem_between.mp (mem_sorted.mp hs)
  exact ⟨hin, hquotes, hfrom, huntil⟩

theorem quotes_own {s : Snapshot F} : Quotes (fun s => s.pubkey == pubkey) fiat atTs s
    ↔ s.pubkey = pubkey ∧ ∃ rate, Carries fiat atTs s rate := by
  rw [Quotes, beq_iff_eq]

theorem quotes_any {s : Snapshot F} : Quotes (fun _ => true) fiat atTs s
    ↔ ∃ rate, Carries fiat atTs s rate := by
  rw [Quotes]
  exact and_iff_right rfl

/-- An instance with a quote of its own: its newest one is found again exactly when it
    is in sight. -/
theorem own_between_iff {s : Snapshot F} {rate : F}
    (hown : newestOf (fun s => s.pubkey == pubkey) (sorted snapshots) fiat atTs = some (s, rate)) :
    (Book.new (between from' until' snapshots)).rateAt pubkey fiat atTs
        = (Book.new snapshots).rateAt pubkey fiat atTs
      ↔ InSight from' until' snapshots pubkey fiat atTs := by
  obtain ⟨hs, hquotes, hnewest⟩ := newestOf_spec (sorted_pairwise _) hown
  have hself : Candidate snapshots pubkey fiat atTs s :=
    ⟨mem_sorted.mp hs, (quotes_own.mp hquotes).2, .inl (quotes_own.mp hquotes).1⟩
  -- The instance has its own, so these are all there is to choose from.
  have honly : ∀ other, Candidate snapshots pubkey fiat atTs other → other.pubkey = pubkey := by
    intro other hother
    rcases hother.preferred with hp | hnone
    · exact hp
    · exact absurd hself.carries (hnone s hself.mem (quotes_own.mp hquotes).1)
  have hmax : ∀ other, Candidate snapshots pubkey fiat atTs other
      → other.publishedAt ≤ s.publishedAt := fun other hother =>
    hnewest other (mem_sorted.mpr hother.mem) (quotes_own.mpr
      ⟨honly other hother, hother.carries⟩)
  rw [rateAt_eq, rateAt_eq, hown]
  constructor
  · intro hsame
    cases hfewer : newestOf (fun s => s.pubkey == pubkey)
        (sorted (between from' until' snapshots)) fiat atTs with
    | some found =>
        obtain ⟨s', rate'⟩ := found
        obtain ⟨-, -, hfrom, huntil⟩ := newestOf_mem hfewer
        rw [hfewer] at hsame
        have hage : atTs - s'.publishedAt = atTs - s.publishedAt :=
          congrArg RateQuote.ageSecs (Option.some.inj hsame)
        refine ⟨fun other hother => ?_, fun other _ => ⟨s, hself, by omega⟩⟩
        have hle := hmax other hother
        omega
    | none =>
        rw [hfewer] at hsame
        obtain ⟨found, -, hquote⟩ := Option.map_eq_some_iff.mp hsame
        cases congrArg RateQuote.source hquote
  · rintro ⟨hceiling, hfloor⟩
    have hfewer : newestOf (fun s => s.pubkey == pubkey)
        (sorted (between from' until' snapshots)) fiat atTs = some (s, rate) := by
      rw [newestOf_between ?_ ?_, hown]
      · intro other hother hq
        obtain ⟨hp, hcarries⟩ := quotes_own.mp hq
        exact hceiling other ⟨hother, hcarries, .inl hp⟩
      · intro other hother hq
        obtain ⟨hp, hcarries⟩ := quotes_own.mp hq
        obtain ⟨s', hs', hle⟩ := hfloor other ⟨hother, hcarries, .inl hp⟩
        exact ⟨s', hs'.mem, quotes_own.mpr ⟨honly s' hs', hs'.carries⟩, hle⟩
    rw [hfewer, Option.elim_some, Option.elim_some]

/-- An instance with none borrows, from any that carries the currency. -/
theorem borrowed_between_iff
    (hown : newestOf (fun s => s.pubkey == pubkey) (sorted snapshots) fiat atTs = none) :
    (Book.new (between from' until' snapshots)).rateAt pubkey fiat atTs
        = (Book.new snapshots).rateAt pubkey fiat atTs
      ↔ InSight from' until' snapshots pubkey fiat atTs := by
  have hnone : ∀ s ∈ snapshots, s.pubkey = pubkey → ¬ ∃ rate, Carries fiat atTs s rate :=
    fun s hs hp hcarries => newestOf_eq_none_iff.mp hown s (mem_sorted.mpr hs)
      (quotes_own.mpr ⟨hp, hcarries⟩)
  have hcandidate : ∀ s, Candidate snapshots pubkey fiat atTs s
      ↔ s ∈ snapshots ∧ ∃ rate, Carries fiat atTs s rate := fun s =>
    ⟨fun h => ⟨h.mem, h.carries⟩, fun h => ⟨h.1, h.2, .inr hnone⟩⟩
  have hfewer : newestOf (fun s => s.pubkey == pubkey)
      (sorted (between from' until' snapshots)) fiat atTs = none := by
    rw [newestOf_eq_none_iff]
    intro s hs hq
    obtain ⟨hp, hcarries⟩ := quotes_own.mp hq
    exact hnone s (mem_between.mp (mem_sorted.mp hs)).1 hp hcarries
  rw [rateAt_eq, rateAt_eq, hown, hfewer]
  constructor
  · intro hsame
    cases hall : newestOf (fun _ => true) (sorted snapshots) fiat atTs with
    | none =>
        have hempty : ∀ s, ¬ Candidate snapshots pubkey fiat atTs s := fun s hs =>
          newestOf_eq_none_iff.mp hall s (mem_sorted.mpr hs.mem) (quotes_any.mpr hs.carries)
        exact ⟨fun s hs => absurd hs (hempty s), fun s hs => absurd hs (hempty s)⟩
    | some found =>
        obtain ⟨s, rate⟩ := found
        obtain ⟨hs, hquotes, hnewest⟩ := newestOf_spec (sorted_pairwise _) hall
        rw [hall] at hsame
        obtain ⟨⟨s', rate'⟩, hfound, hquote⟩ := Option.map_eq_some_iff.mp hsame
        obtain ⟨-, -, hfrom, huntil⟩ := newestOf_mem hfound
        have hage : atTs - s'.publishedAt = atTs - s.publishedAt :=
          congrArg RateQuote.ageSecs hquote
        refine ⟨fun other hother => ?_, fun other _ => ⟨s, (hcandidate s).mpr
          ⟨mem_sorted.mp hs, quotes_any.mp hquotes⟩, by omega⟩⟩
        have hle := hnewest other (mem_sorted.mpr hother.mem) (quotes_any.mpr hother.carries)
        omega
  · rintro ⟨hceiling, hfloor⟩
    show Option.map _ _ = Option.map _ _
    rw [newestOf_between ?_ ?_]
    · intro s hs hq
      exact hceiling s ((hcandidate s).mpr ⟨hs, quotes_any.mp hq⟩)
    · intro s hs hq
      obtain ⟨s', hs', hle⟩ := hfloor s ((hcandidate s).mpr ⟨hs, quotes_any.mp hq⟩)
      exact ⟨s', hs'.mem, quotes_any.mpr hs'.carries, hle⟩

/-- **A BOUNDED BOOK PRICES AS THE WHOLE ONE** exactly when what the quote is taken
    from is in sight. -/
theorem rateAt_between_iff :
    (Book.new (between from' until' snapshots)).rateAt pubkey fiat atTs
        = (Book.new snapshots).rateAt pubkey fiat atTs
      ↔ InSight from' until' snapshots pubkey fiat atTs := by
  cases hown : newestOf (fun s => s.pubkey == pubkey) (sorted snapshots) fiat atTs with
  | some found => exact own_between_iff hown
  | none => exact borrowed_between_iff hown

end Bounded

end RateBook

namespace Load

open Keyed Parse Repo RateBook

variable {F : Type}

/-- The columns a book is made of, oldest first: every row of `rates`. -/
def sheetsOf (db : Db F) : List (Snapshot F) :=
  (rowsBy (ascAsc RateSnapshot.publishedAt RateSnapshot.eventId) db.rates fun _ => true).map
    Snapshot.of

/-- `load::rates::book`: the snapshots that can price what completed in
    `[from, until)`. -/
def book (from' until' : Int) (db : Db F) : Book F :=
  Book.new ((Rates.publishedBetween (from' - maxAgeSecs) until' db).map Snapshot.of)

/-- A book of the whole table. -/
def wholeBook (db : Db F) : Book F := Book.new (sheetsOf db)

theorem book_eq (from' until' : Int) (db : Db F) :
    book from' until' db
      = Book.new (RateBook.between (from' - maxAgeSecs) until' (sheetsOf db)) := by
  have hread : Rates.publishedBetween (from' - maxAgeSecs) until' db
      = (rowsBy (ascAsc RateSnapshot.publishedAt RateSnapshot.eventId) db.rates
          fun _ => true).filter fun row =>
            decide (from' - maxAgeSecs ≤ row.publishedAt) && decide (row.publishedAt < until') := by
    rw [← rowsBy_and]
    rfl
  rw [book, hread, RateBook.between, sheetsOf, List.filter_map]
  rfl

end Load

namespace Publish

open Keyed Parse Repo RateBook
open Stats (Floats Order Priced completedIn quoteOf Converted)

variable {F : Type}

/-- The prices `load` of `commands/publish.rs` gives a snapshot: from the archive's
    floor, or from the clock when it has none, to the clock. -/
def loadPriced (referenceCurrency : String) (coverage : Coverage) (now : Int) (db : Db F) :
    Priced F :=
  ⟨Load.book (coverage.earliest.getD now) now db, referenceCurrency⟩

/-- A window the volume report is published over: a window document's, or a row's
    that is neither before nor after the archive. -/
inductive Reported (coverage : Coverage) (now : Int) : Stats.Window → Prop
  | document (span : Window) : Reported coverage now (windowOf span coverage now)
  | row {slot : Partition} {key : String} {window : Stats.Window}
      (published : slot.bucket ∈ coverage.partitions slot.resolution now)
      (reaches : coverage.covers slot.window = true)
      (mem : (key, window) ∈ rowsOf slot.resolution slot.window)
      (covered : coverage.covers window = true) (started : window.from' < now) :
      Reported coverage now window

section Reported

variable {digest : String → String} {A : Floats F} {data : Stats.Data F} {coverage : Coverage}
  {snapshotId : String} {now : Int}

/-- A cell with a figure in it is over a reported window. -/
theorem reported_of_cell {run : Run} {report : Report} {document : Document F}
    (hnow : run.generatedAt = now)
    (h : document ∈ Snapshot.seriesDocuments digest A data coverage run report) :
    ∃ family slot, document = Snapshot.seriesDocument digest A data coverage run report family slot
      ∧ ∀ key window, (key, window) ∈ rowsOf slot.resolution slot.window →
        ∀ name, cellOf A data coverage now window name ≠ .null → Reported coverage now window := by
  obtain ⟨family, slot, -, hpublished, hreaches, rfl⟩ := Snapshot.mem_seriesDocuments.mp h
  rw [hnow] at hpublished
  refine ⟨family, slot, rfl, fun key window hrow name hcell => ?_⟩
  rw [cellOf] at hcell
  split at hcell
  · exact absurd rfl hcell
  · next hin =>
      rw [Bool.or_eq_true, not_or, decide_eq_true_iff, Bool.not_eq_true', Bool.not_eq_false] at hin
      exact .row hpublished hreaches hrow hin.1 (Int.not_le.mp hin.2)

end Reported

/-- The same quotes are the same figures. -/
theorem convert_congr (A : Floats F) {book book' : Book F} {code : String}
    {orders : List (Order F)} {window : Stats.Window}
    (h : ∀ order ∈ completedIn orders window,
      quoteOf book code order = quoteOf book' code order) :
    Converted.convert A orders window book code = Converted.convert A orders window book' code := by
  rw [Converted.convert, Converted.convert]
  generalize ({ code, total := some (A.ofInt 0) } : Converted F) = start
  generalize completedIn orders window = done at h
  induction done generalizing start with
  | nil => rfl
  | cons order rest ih =>
      have hstep : Converted.step A book code start order
          = Converted.step A book' code start order := by
        have hquote := h order List.mem_cons_self
        rw [Converted.step, Converted.step]
        cases hat : order.successAt with
        | none => rfl
        | some settledAt =>
            rw [quoteOf, quoteOf, hat, Option.bind_some, Option.bind_some] at hquote
            simp only [hquote]
      rw [List.foldl_cons, List.foldl_cons, hstep]
      exact ih _ fun order hmem => h order (List.mem_cons_of_mem _ hmem)

/-- Every completed order that the volume report publishes is quoted the same from
    the book a publication loads as from the whole table. -/
def SamePrices (db : Db F) (coverage : Coverage) (now : Int) (code : String)
    (orders : List (Order F)) : Prop :=
  ∀ window, Reported coverage now window → ∀ order ∈ completedIn orders window,
    quoteOf (loadPriced code coverage now db).book code order
      = quoteOf (Load.wholeBook db) code order

/-- Where the prices are the same, so is every converted figure published. -/
theorem convert_same (A : Floats F) {db : Db F} {coverage : Coverage} {now : Int} {code : String}
    {orders : List (Order F)} {window : Stats.Window}
    (h : SamePrices db coverage now code orders) (hreported : Reported coverage now window) :
    Converted.convert A orders window (loadPriced code coverage now db).book code
      = Converted.convert A orders window (Load.wholeBook db) code :=
  convert_congr A (h window hreported)

/-- **THE BOUNDED BOOK PRICES THE SAME ORDERS** exactly when, for every one of them,
    what its quote is taken from was published from five minutes before the
    archive's floor up to the clock. -/
theorem same_prices_iff (db : Db F) (coverage : Coverage) (now : Int) (code : String)
    (orders : List (Order F)) :
    SamePrices db coverage now code orders
      ↔ ∀ window, Reported coverage now window → ∀ order ∈ completedIn orders window,
          ∀ success, order.successAt = some success →
            InSight (coverage.earliest.getD now - maxAgeSecs) now (Load.sheetsOf db) order.pubkey
              code success := by
  refine forall_congr' fun window => forall_congr' fun _ => forall_congr' fun order =>
    forall_congr' fun hdone => ?_
  rw [loadPriced, Load.book_eq, Load.wholeBook, quoteOf, quoteOf]
  cases hat : order.successAt with
  | none =>
      refine iff_of_true rfl fun success hsuccess => ?_
      cases hsuccess
  | some success =>
      rw [Option.bind_some, Option.bind_some, rateAt_between_iff]
      constructor
      · intro hsight other hother
        cases hother
        exact hsight
      · intro hsight
        exact hsight success rfl

/-! ## A floor after the trade -/

/-- The order, completed. -/
def noonTrade : Wire.Event :=
  Convergence.orderEvent "8000000000000000000000000000000000000000000000000000000000000001"
    Convergence.alice 1785603600 "success"

/-- The sheet of the minute before. -/
def justBefore : Wire.Event :=
  Thinning.ratesEvent "8000000000000000000000000000000000000000000000000000000000000002"
    Convergence.alice 1785603500 "sheet"

/-- A sheet of the evening. -/
def muchLater : Wire.Event :=
  Thinning.ratesEvent "8000000000000000000000000000000000000000000000000000000000000003"
    Convergence.alice 1785609000 "sheet"

def daysSheets : Wire.Externals Int :=
  .over [noonTrade, justBefore, muchLater] (by decide) [("sheet", [("USD", 60000)])]

/-- The kinds nobody has published anything of were asked for from the afternoon on. -/
def askedLate (db : Db Int) : Db Int :=
  [Wire.devFeeKind, Wire.disputeKind, Wire.infoKind, Wire.relayListKind].foldl
    (fun db kind => IndexedKinds.record kind 1785606400 1785609600 db) db

def lateFloor : Db Int :=
  let read (event : Wire.Event) (db : Db Int) : Db Int :=
    (Pipeline.ingest daysSheets Convergence.openPolicy ⟨event, "wss://a", 1785609600⟩ db).2
  askedLate (read muchLater (read justBefore (read noonTrade Db.empty)))

/-- What that archive speaks for. -/
def afternoon : Coverage := .between 1785606400 1785609000

/-- **A TRADE BEFORE THE FLOOR LOSES ITS PRICE**: the fees were asked for only from
    the afternoon on, so the archive speaks for nothing earlier; the day's window
    document holds the trade all the same, whose sheet is not loaded. -/
theorem trade_before_floor :
    Rebuild.Reachable daysSheets lateFloor
      ∧ Coverage.earliestCreatedAt lateFloor Wire.indexedKinds ⟨none, []⟩ = afternoon.earliest
      ∧ ∃ orders, Load.orders Load.everything lateFloor = .ok orders
        ∧ ¬ SamePrices lateFloor afternoon 1785610000 "USD" orders := by
  refine ⟨.record _ _ _ (.record _ _ _ (.record _ _ _ (.record _ _ _
    (.ingest _ _ (.ingest _ _ (.ingest _ _ .empty)))))), by decide +kernel, ?_⟩
  have hdiffer : ((Load.orders Load.everything lateFloor).toOption.any fun orders =>
      (completedIn orders (windowOf .hours24 afternoon 1785610000)).any fun order =>
        (quoteOf (loadPriced "USD" afternoon 1785610000 lateFloor).book "USD" order).isNone
          && (quoteOf (Load.wholeBook lateFloor) "USD" order).isSome) = true := by
    decide +kernel
  cases hload : Load.orders Load.everything lateFloor with
  | error e =>
      rw [hload] at hdiffer
      exact nomatch hdiffer
  | ok orders =>
      refine ⟨orders, rfl, fun hsame => ?_⟩
      rw [hload] at hdiffer
      obtain ⟨order, hmem, hquotes⟩ := List.any_eq_true.mp
        (show (completedIn orders (windowOf .hours24 afternoon 1785610000)).any _ = true
          from hdiffer)
      rw [hsame _ (.document .hours24) order hmem, Bool.and_eq_true, Option.isNone_iff_eq_none]
        at hquotes
      rw [hquotes.1] at hquotes
      exact nomatch hquotes.2

end Publish
