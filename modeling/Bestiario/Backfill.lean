import Bestiario.Sync
import Bestiario.Lib.Paging

/-! # Walking a relay's history backwards

    `commands/backfill.rs`, with `Range::resolve` of `commands/range.rs`.  A
    relay answers with the NEWEST of what a filter matches, so the walk asks for
    a window, steps its upper bound down to the oldest second of the page, and
    asks again until a page comes back empty or the floor is reached.

    The relay is any function from the requests so far to a page of the newest.
    The bound is an `i64` and the stamps are `u64`: at the one bound a filter
    cannot carry, `i64::MAX`, the page may hold stamps the walk does not expect,
    and what becomes of them is worked out beside the ordinary walk. -/

namespace History

open Keyed Wire Parse Repo Pipeline Sync Paging

variable {F : Type}

/-! ## The range -/

/-- `DEFAULT_WINDOW_DAYS`. -/
def defaultWindowDays : Int := 30

/-- `MAX_WINDOW_SECS`: a hundred Julian years. -/
def maxWindowSecs : Int := 100 * 31557600

/-- `i64::MAX`. -/
def i64Max : Int := 2 ^ 63 - 1

/-- `i64::saturating_sub`. -/
def saturatingSub (a b : Int) : Int := max (-2 ^ 63) (min (a - b) i64Max)

/-- What went wrong resolving a window. -/
inductive RangeError where
  | empty (from' until' : Int)
  | tooWide (from' until' : Int)
  deriving DecidableEq

/-- `Range::resolve`. -/
def resolve (from' until' : Option Int) (now : Int) : Except RangeError Range :=
  let until' := until'.getD now
  let from' := from'.getD (wrapI64 (until' - defaultWindowDays * 86400))
  if from' ≥ until' then .error (.empty from' until')
  else if saturatingSub until' from' > maxWindowSecs then .error (.tooWide from' until')
  else .ok ⟨from', until'⟩

/-! ## The walk -/

/-- `Counts`: what became of the events looked at. -/
structure Counts where
  stored : Nat := 0
  duplicate : Nat := 0
  redundant : Nat := 0
  rejected : Nat := 0
  deriving DecidableEq

/-- `Counts::record`. -/
def Counts.record (counts : Counts) : IngestOutcome F → Counts
  | .stored => { counts with stored := counts.stored + 1 }
  | .duplicate => { counts with duplicate := counts.duplicate + 1 }
  | .redundant => { counts with redundant := counts.redundant + 1 }
  | .rejected _ => { counts with rejected := counts.rejected + 1 }

/-- `Counts::add_assign`. -/
def Counts.add (a b : Counts) : Counts where
  stored := a.stored + b.stored
  duplicate := a.duplicate + b.duplicate
  redundant := a.redundant + b.redundant
  rejected := a.rejected + b.rejected

/-- The walk of one relay: whom to ask about, and how much at a time. -/
structure Backfill where
  relayUrl : String
  authors : List String
  listed : List String
  windowLimit : Nat
  /-- `PublicKey::parse`, rendered as the hex it was read from. -/
  parseKey : String → Option String

/-- `Backfill::vouched`, read as `Sync::vouched` reads it; no overlap enters. -/
def Backfill.vouched (B : Backfill) (db : Db F) : List String :=
  Follower.vouched ⟨B.relayUrl, B.authors, B.listed, 0, B.parseKey⟩ db

/-- `Backfill::oldest`. -/
def oldest (events : List Event) : Int := (events.map Event.at).min?.getD 0

/-- `Backfill::ingest_all`: one window, oldest first. -/
def Backfill.ingestWindow (X : Externals F) (P : Policy) (B : Backfill) (now : Int)
    (events : List Event) (db : Db F) : Counts × Db F :=
  events.reverse.foldl
    (fun (counts, db) e =>
      let (outcome, db) := ingest X P ⟨e, B.relayUrl, now⟩ db
      (counts.record outcome, db)) ({}, db)

/-- The bound of the next window: the oldest second seen, kept if that moves. -/
def nextBound (events : List Event) (until' : Int) : Int :=
  let next := wrapI64 (oldest events + 1)
  if next < until' then next else oldest events

/-- How far a walk has come, and what it has handed to the pipeline. -/
structure Walked (F : Type) where
  counts : Counts
  db : Db F
  handed : List Event

/-- How a relay answers the n-th request; `none` is a request that failed. -/
abbrev Answer := Nat → Filter → Option (List Event)

/-- The loop of `Backfill::walk`; `none` only when the fuel runs out. -/
def Backfill.loop (X : Externals F) (P : Policy) (B : Backfill) (kind : UInt16)
    (range : Range) (now : Int) (vouched : List String) (answer : Answer) :
    Nat → Nat → Int → Walked F → Option (Walked F)
  | 0, _, _, _ => none
  | fuel + 1, n, until', w =>
      if until' > range.from' then
        match resolve (some range.from') (some until') now with
        -- The floor and the ceiling have met: the walk is done.
        | .error _ => some w
        | .ok window =>
          match forKind kind B.authors vouched (some window) (some B.windowLimit) with
          | none => some w
          | some filter =>
            match answer n filter with
            | none => some w
            | some [] => some w
            | some (e :: rest) =>
                let events := e :: rest
                let (counts, db) := B.ingestWindow X P now events w.db
                B.loop X P kind range now vouched answer fuel (n + 1)
                  (nextBound events until')
                  ⟨w.counts.add counts, db, w.handed ++ events.reverse⟩
      else some w

/-- `Backfill::walk`: one relay, one kind, from the top of `range` down. -/
def Backfill.walk (X : Externals F) (P : Policy) (B : Backfill) (kind : UInt16)
    (range : Range) (now : Int) (answer : Answer) (db : Db F) (fuel : Nat) :
    Option (Walked F) :=
  B.loop X P kind range now (B.vouched db) answer fuel 0 range.until' ⟨{}, db, []⟩


/-! ## The relay -/

/-- A stamp as the wire carries it. -/
def stamp (e : Event) : Nat := e.createdAt.toNat

/-- A page of at most `cap`, and at most what the filter asks for. -/
def pageSize (cap : Nat) (filter : Filter) : Nat :=
  match filter.limit with
  | some limit => min cap limit
  | none => cap

/-- The relay answers every filter from `store`, newest first. -/
def Answers (cap : Nat) (store : Finset Event) (answer : Answer) : Prop :=
  ∀ n filter, ∃ page, answer n filter = some page
    ∧ Newest stamp (pageSize cap filter) (store.filter fun e => filter.matches e = true) page

/-- What the walk asks about, whenever it was stamped. -/
def Backfill.wants (B : Backfill) (kind : UInt16) (vouched : List String) (e : Event) : Bool :=
  (forKind kind B.authors vouched none none).any fun filter => filter.matches e

/-- The stored events the walk is about, from its floor on. -/
def Backfill.reach (B : Backfill) (kind : UInt16) (range : Range) (vouched : List String)
    (store : Finset Event) : Finset Event :=
  store.filter fun e => B.wants kind vouched e = true ∧ range.from' ≤ stamp e

/-- The part of it that a window ending at `until'` matches. -/
def Backfill.below (B : Backfill) (kind : UInt16) (range : Range) (vouched : List String)
    (store : Finset Event) (until' : Int) : Finset Event :=
  (B.reach kind range vouched store).filter fun e => until' < i64Max → stamp e < until'

theorem mem_below {B : Backfill} {kind : UInt16} {range : Range} {vouched : List String}
    {store : Finset Event} {until' : Int} {e : Event} :
    e ∈ B.below kind range vouched store until'
      ↔ e ∈ B.reach kind range vouched store ∧ (until' < i64Max → stamp e < until') :=
  Finset.mem_filter

/-! ## One window -/

theorem asI64_of_lt {n : UInt64} (h : n.toNat < 2 ^ 63) : asI64 n = n.toNat := by
  have hnat : n.toBitVec.toNat = n.toNat := rfl
  rw [asI64, BitVec.toInt_eq_toNat_cond, hnat, if_pos (by omega)]

theorem asI64_of_le {n : UInt64} (h : 2 ^ 63 ≤ n.toNat) : asI64 n < 0 := by
  have hnat : n.toBitVec.toNat = n.toNat := rfl
  have hlt := n.toNat_lt
  rw [asI64, BitVec.toInt_eq_toNat_cond, hnat, if_neg (by omega)]
  omega

/-- The oldest of a page that holds anything is on it. -/
theorem oldest_spec {events : List Event} (h : events ≠ []) :
    (∃ e ∈ events, oldest events = e.at) ∧ ∀ e ∈ events, oldest events ≤ e.at := by
  obtain ⟨m, hm⟩ : ∃ m, (events.map Event.at).min? = some m := by
    cases hmin : (events.map Event.at).min? with
    | some m => exact ⟨m, rfl⟩
    | none => exact absurd (List.map_eq_nil_iff.mp (List.min?_eq_none_iff.mp hmin)) h
  have hold : oldest events = m := by rw [oldest, hm, Option.getD_some]
  obtain ⟨hmem, hle⟩ := List.min?_eq_some_iff.mp hm
  rw [hold]
  constructor
  · obtain ⟨e, he, heq⟩ := List.mem_map.mp hmem
    exact ⟨e, he, heq.symm⟩
  · intro e he
    exact hle _ (List.mem_map_of_mem he)

/-- A narrower window of a range that resolves still does. -/
theorem resolve_narrowed {from' until' now : Int} (hlt : from' < until')
    (hwide : until' - from' ≤ maxWindowSecs) :
    resolve (some from') (some until') now = .ok ⟨from', until'⟩ := by
  have hsat : ¬ saturatingSub until' from' > maxWindowSecs := by
    rw [saturatingSub, maxWindowSecs, i64Max] at *
    omega
  rw [resolve]
  simp only [Option.getD_some]
  rw [if_neg (by omega), if_neg hsat]

theorem of_resolve {from' until' : Option Int} {now : Int} {range : Range}
    (h : resolve from' until' now = .ok range) :
    range.from' < range.until' ∧ range.until' - range.from' ≤ maxWindowSecs := by
  rw [resolve] at h
  split_ifs at h with hempty hwide
  cases h
  dsimp only
  refine ⟨by omega, ?_⟩
  simp only [saturatingSub, i64Max, maxWindowSecs] at *
  omega

/-- A window narrows what is asked for and nothing else. -/
theorem of_forKind {kind : UInt16} {authors vouched : List String} {range : Range}
    {limit : Option Nat} {filter : Filter}
    (h : forKind kind authors vouched (some range) limit = some filter) :
    ∃ identifier asked,
      filter = ⟨kind, identifier, asked, (window range).1, (window range).2, limit⟩
        ∧ forKind kind authors vouched none none
          = some ⟨kind, identifier, asked, none, none, none⟩ := by
  rw [forKind] at h ⊢
  by_cases huntagged : untaggedKinds.contains kind = true
  · rw [if_pos huntagged] at h ⊢
    by_cases hempty : vouched.isEmpty = true
    · rw [if_pos hempty] at h
      cases h
    · rw [if_neg hempty] at h ⊢
      exact ⟨_, _, (Option.some.inj h).symm, rfl⟩
  · rw [if_neg huntagged] at h ⊢
    exact ⟨_, _, (Option.some.inj h).symm, rfl⟩

/-- With no request to make there is nothing asked about. -/
theorem wants_of_none {B : Backfill} {kind : UInt16} {vouched : List String} {range : Range}
    {limit : Option Nat} (h : forKind kind B.authors vouched (some range) limit = none)
    (e : Event) : B.wants kind vouched e = false := by
  have hnone : forKind kind B.authors vouched none none = none := by
    rw [forKind] at h ⊢
    split_ifs at h ⊢ with huntagged hempty
    rfl
  rw [Backfill.wants, hnone, Option.any_none]

theorem since_iff (range : Range) (e : Event) :
    ((window range).1.all fun since => decide (since ≤ e.createdAt.toNat)) = true
      ↔ range.from' ≤ stamp e := by
  simp only [window, stamp]
  split_ifs with hpos
  · rw [Option.all_some, decide_eq_true_eq]
    omega
  · rw [Option.all_none]
    exact iff_of_true rfl (by omega)

theorem until_iff {range : Range} (hpos : 0 < range.until') (e : Event) :
    ((window range).2.all fun until' => decide (e.createdAt.toNat ≤ until')) = true
      ↔ (range.until' < i64Max → stamp e < range.until') := by
  simp only [window, stamp, i64Max]
  split_ifs with hbound
  · rw [Option.all_some, decide_eq_true_eq]
    omega
  · rw [Option.all_none]
    exact iff_of_true rfl (fun h => absurd h hbound)

/-- A window adds its two bounds to what is asked about. -/
theorem matches_window {B : Backfill} {kind : UInt16} {vouched : List String} {range : Range}
    {limit : Option Nat} {filter : Filter}
    (h : forKind kind B.authors vouched (some range) limit = some filter) (e : Event) :
    filter.matches e = true
      ↔ B.wants kind vouched e = true
        ∧ ((window range).1.all fun since => decide (since ≤ e.createdAt.toNat)) = true
        ∧ ((window range).2.all fun until' => decide (e.createdAt.toNat ≤ until')) = true := by
  obtain ⟨identifier, asked, rfl, hopen⟩ := of_forKind h
  rw [Backfill.wants, hopen, Option.any_some, Filter.matches, Filter.matches]
  simp only [Bool.and_eq_true, Option.all_none, and_true, and_assoc]

/-- **WHAT A WINDOW MATCHES**: a bound of `i64::MAX` is no bound. -/
theorem matches_iff {B : Backfill} {kind : UInt16} {vouched : List String} {range : Range}
    {limit : Option Nat} {filter : Filter} (hpos : 0 < range.until')
    (h : forKind kind B.authors vouched (some range) limit = some filter) (e : Event) :
    filter.matches e = true
      ↔ B.wants kind vouched e = true ∧ range.from' ≤ stamp e
        ∧ (range.until' < i64Max → stamp e < range.until') := by
  rw [matches_window h e, since_iff range e, until_iff hpos e]

theorem pageSize_of_forKind {B : Backfill} {kind : UInt16} {vouched : List String}
    {range : Range} {limit : Nat} {filter : Filter} (cap : Nat)
    (h : forKind kind B.authors vouched (some range) (some limit) = some filter) :
    pageSize cap filter = min cap limit := by
  obtain ⟨identifier, asked, rfl, -⟩ := of_forKind h
  rfl

/-- The page the walk is answered with at a bound. -/
theorem page_of_bound {B : Backfill} {kind : UInt16} {range : Range} {vouched : List String}
    {cap : Nat} {store : Finset Event} {answer : Answer} (hans : Answers cap store answer)
    {until' : Int} (hpos : 0 < until') {filter : Filter}
    (h : forKind kind B.authors vouched (some ⟨range.from', until'⟩) (some B.windowLimit)
      = some filter) (n : Nat) :
    ∃ page, answer n filter = some page
      ∧ Newest stamp (min cap B.windowLimit) (B.below kind range vouched store until') page := by
  obtain ⟨page, hpage, hnewest⟩ := hans n filter
  refine ⟨page, hpage, ?_⟩
  have hsize : pageSize cap filter = min cap B.windowLimit := pageSize_of_forKind cap h
  have hmatches := matches_iff (show 0 < (Range.mk range.from' until').until' from hpos) h
  have hset : (store.filter fun e => filter.matches e = true)
      = B.below kind range vouched store until' := by
    rw [Backfill.below, Backfill.reach, Finset.filter_filter]
    refine Finset.filter_congr fun e _ => ?_
    rw [hmatches e, and_assoc]
  rw [← hsize, ← hset]
  exact hnewest

section Loop

variable (X : Externals F) (P : Policy) (B : Backfill) (kind : UInt16) (range : Range)
  (now : Int) (vouched : List String) (answer : Answer)

/-- The page a bound is answered with, `none` where the walk ends instead. -/
def Backfill.asked (n : Nat) (until' : Int) : Option (List Event) :=
  if until' > range.from' then
    match resolve (some range.from') (some until') now with
    | .error _ => none
    | .ok window =>
      match forKind kind B.authors vouched (some window) (some B.windowLimit) with
      | none => none
      | some filter =>
        match answer n filter with
        | none => none
        | some [] => none
        | some (e :: rest) => some (e :: rest)
  else none

/-- The walk with one more page handed over. -/
def Backfill.took (page : List Event) (w : Walked F) : Walked F :=
  ⟨w.counts.add (B.ingestWindow X P now page w.db).1, (B.ingestWindow X P now page w.db).2,
    w.handed ++ page.reverse⟩

/-- **ONE TURN OF THE LOOP**: a page, and the bound it steps to. -/
theorem loop_succ (fuel n : Nat) (until' : Int) (w : Walked F) :
    B.loop X P kind range now vouched answer (fuel + 1) n until' w
      = match B.asked kind range now vouched answer n until' with
        | none => some w
        | some page => B.loop X P kind range now vouched answer fuel (n + 1)
            (nextBound page until') (B.took X P now page w) := by
  rw [Backfill.loop, Backfill.asked]
  by_cases hgt : until' > range.from'
  · rw [if_pos hgt, if_pos hgt]
    cases resolve (some range.from') (some until') now with
    | error _ => rfl
    | ok window =>
        dsimp only
        cases forKind kind B.authors vouched (some window) (some B.windowLimit) with
        | none => rfl
        | some filter =>
            dsimp only
            cases answer n filter with
            | none => rfl
            | some page =>
                cases page with
                | nil => rfl
                | cons e rest => rfl
  · rw [if_neg hgt, if_neg hgt]

/-- A bound at or below the floor ends the walk. -/
theorem asked_done {n : Nat} {until' : Int} (h : until' ≤ range.from') :
    B.asked kind range now vouched answer n until' = none := by
  rw [Backfill.asked, if_neg (by omega)]

theorem loop_done {fuel n : Nat} {until' : Int} {w : Walked F} (h : until' ≤ range.from') :
    B.loop X P kind range now vouched answer (fuel + 1) n until' w = some w := by
  rw [loop_succ, asked_done B kind range now vouched answer h]

/-- **ONE WINDOW**: nothing asked about, an empty page, or a page. -/
theorem asked_spec {cap : Nat} {store : Finset Event} (hans : Answers cap store answer)
    (hcap : 1 ≤ cap) (hlimit : 1 ≤ B.windowLimit) {until' : Int} (hpos : 0 < until')
    (hlt : range.from' < until') (hwide : until' - range.from' ≤ maxWindowSecs) (n : Nat) :
    (B.asked kind range now vouched answer n until' = none
        ∧ B.below kind range vouched store until' = ∅)
      ∨ ∃ page, B.asked kind range now vouched answer n until' = some page ∧ page ≠ []
        ∧ Newest stamp (min cap B.windowLimit) (B.below kind range vouched store until') page := by
  rw [Backfill.asked, if_pos hlt, resolve_narrowed hlt hwide]
  dsimp only
  cases hfilter : forKind kind B.authors vouched (some ⟨range.from', until'⟩)
      (some B.windowLimit) with
  | none =>
      have hreach : B.reach kind range vouched store = ∅ := by
        refine Finset.filter_eq_empty_iff.mpr fun e _ => ?_
        rw [wants_of_none hfilter e]
        simp
      refine .inl ⟨rfl, ?_⟩
      rw [Backfill.below, hreach, Finset.filter_empty]
  | some filter =>
      obtain ⟨page, hpage, hnewest⟩ := page_of_bound hans hpos hfilter n
      dsimp only
      rw [hpage]
      cases page with
      | nil => exact .inl ⟨rfl, (hnewest.eq_nil_iff (by omega)).mp rfl⟩
      | cons e rest => exact .inr ⟨e :: rest, rfl, List.cons_ne_nil e rest, hnewest⟩

/-- The loop at such a window. -/
theorem loop_step {cap : Nat} {store : Finset Event} (hans : Answers cap store answer)
    (hcap : 1 ≤ cap) (hlimit : 1 ≤ B.windowLimit) {until' : Int} (hpos : 0 < until')
    (hlt : range.from' < until') (hwide : until' - range.from' ≤ maxWindowSecs) (n : Nat)
    (w : Walked F) :
    ((∀ fuel, B.loop X P kind range now vouched answer (fuel + 1) n until' w = some w)
        ∧ B.below kind range vouched store until' = ∅)
      ∨ ∃ page w',
        Newest stamp (min cap B.windowLimit) (B.below kind range vouched store until') page
        ∧ page ≠ [] ∧ w'.handed = w.handed ++ page.reverse
        ∧ ∀ fuel, B.loop X P kind range now vouched answer (fuel + 1) n until' w
          = B.loop X P kind range now vouched answer fuel (n + 1) (nextBound page until') w' := by
  rcases asked_spec B kind range now vouched answer hans hcap hlimit hpos hlt hwide n with
    ⟨hasked, hempty⟩ | ⟨page, hasked, hne, hnewest⟩
  · refine .inl ⟨fun fuel => ?_, hempty⟩
    rw [loop_succ, hasked]
  · refine .inr ⟨page, B.took X P now page w, hnewest, hne, rfl, fun fuel => ?_⟩
    rw [loop_succ, hasked]

/-- More fuel changes nothing. -/
theorem loop_mono {fuel : Nat} : ∀ {n : Nat} {until' : Int} {w w' : Walked F},
    B.loop X P kind range now vouched answer fuel n until' w = some w' →
      ∀ more, fuel ≤ more →
        B.loop X P kind range now vouched answer more n until' w = some w' := by
  induction fuel with
  | zero =>
      intro n until' w w' h
      cases h
  | succ fuel ih =>
      intro n until' w w' h more hmore
      obtain ⟨more, rfl⟩ : ∃ m, more = m + 1 := ⟨more - 1, by omega⟩
      rw [loop_succ] at h ⊢
      cases hasked : B.asked kind range now vouched answer n until' with
      | none =>
          rw [hasked] at h
          exact h
      | some page =>
          rw [hasked] at h
          exact ih h more (by omega)

/-! ## The ordinary walk -/

/-- No second of the range holds more than a page. -/
def Backfill.Dense (cap : Nat) (store : Finset Event) : Prop :=
  ∀ second : Nat, range.from' ≤ second → second < range.until' →
    ((B.reach kind range vouched store).filter (stamp · = second)).card ≤ min cap B.windowLimit

/-- Stamps an `i64` holds are read as they are. -/
theorem oldest_of_signed {page : List Event} (hne : page ≠ [])
    (hsigned : ∀ e ∈ page, stamp e < 2 ^ 63) :
    ∃ x ∈ page, (∀ e ∈ page, stamp x ≤ stamp e) ∧ oldest page = stamp x := by
  have hat : ∀ e ∈ page, e.at = stamp e := fun e he => asI64_of_lt (hsigned e he)
  obtain ⟨⟨x, hx, hold⟩, hle⟩ := oldest_spec hne
  refine ⟨x, hx, fun e he => ?_, hold.trans (hat x hx)⟩
  have hxe := hle e he
  rw [hold, hat x hx, hat e he] at hxe
  omega

/-- The bound an oldest second below the old one steps to. -/
theorem nextBound_of_below {page : List Event} {x : Event} (hold : oldest page = stamp x)
    {until' : Int} (htop : until' ≤ i64Max) (hlt : stamp x < until') :
    nextBound page until' = stamp x + 1 ∧ (stamp x : Int) + 1 < until'
      ∨ nextBound page until' = stamp x ∧ (stamp x : Int) + 1 = until' := by
  rw [i64Max] at htop
  have hwrap : wrapI64 (oldest page + 1) = stamp x + 1 := by
    rw [hold]
    exact wrapI64_of_fits (by omega) (by omega)
  rw [nextBound, hwrap]
  by_cases hmoves : (stamp x : Int) + 1 < until'
  · exact Or.inl ⟨if_pos hmoves, hmoves⟩
  · refine Or.inr ⟨?_, by omega⟩
    rw [if_neg hmoves, hold]

/-- The oldest second is stepped past only when the page did not move, and then that
    second fits a page: what the bound has passed was on it. -/
theorem mem_page_of_passed {cap : Nat} {store : Finset Event} {until' : Int} {page : List Event}
    (hpage : Newest stamp (min cap B.windowLimit) (B.below kind range vouched store until') page)
    (hdense : B.Dense kind range vouched cap store) (hle : until' ≤ range.until')
    (hstored : ∀ e ∈ B.below kind range vouched store until', (stamp e : Int) < until')
    {x : Event} (hx : x ∈ page)
    (hbound : nextBound page until' = stamp x + 1 ∧ (stamp x : Int) + 1 < until'
      ∨ nextBound page until' = stamp x ∧ (stamp x : Int) + 1 = until')
    {e : Event} (he : e ∈ B.below kind range vouched store until')
    (hpassed : ¬ (stamp e : Int) < nextBound page until') : e ∈ page := by
  by_cases hnewer : stamp x < stamp e
  · exact hpage.mem_of_newer hx he hnewer
  · have hlt := hstored e he
    have hxfrom := (Finset.mem_filter.mp (mem_below.mp (hpage.stored x hx)).1).2.2
    have hsub : above stamp (B.below kind range vouched store until') (stamp x)
        ⊆ (B.reach kind range vouched store).filter (stamp · = stamp x) := by
      intro y hy
      obtain ⟨hybelow, hmark⟩ := mem_above.mp hy
      have hylt := hstored y hybelow
      exact Finset.mem_filter.mpr ⟨(mem_below.mp hybelow).1, by omega⟩
    have hfits := (Finset.card_le_card hsub).trans (hdense (stamp x) hxfrom (by omega))
    exact hpage.mem_of_fits hfits (mem_above.mpr ⟨he, by omega⟩)

/-- **THE WALK ENDS AND MISSES NOTHING** below a bound that the relay respects:
    what is above the bound is never handed over, what is below always is. -/
theorem loop_complete {cap : Nat} {store : Finset Event} (hans : Answers cap store answer)
    (hcap : 1 ≤ cap) (hlimit : 1 ≤ B.windowLimit)
    (hlow : ∀ e ∈ B.reach kind range vouched store, range.from' < stamp e → 1 ≤ stamp e)
    (htop : range.until' ≤ i64Max) (hwide : range.until' - range.from' ≤ maxWindowSecs)
    (fuel : Nat) : ∀ (n : Nat) (until' : Int) (w : Walked F), until' ≤ range.until' →
      (range.from' < until' → 0 < until') →
      (∀ e ∈ B.reach kind range vouched store, until' = i64Max → (stamp e : Int) < i64Max) →
      (until' - range.from').toNat < fuel →
        ∃ w', B.loop X P kind range now vouched answer fuel n until' w = some w'
          ∧ (∀ e ∈ w.handed, e ∈ w'.handed)
          ∧ (∀ e ∈ w'.handed, e ∈ w.handed ∨ (stamp e : Int) < until')
          ∧ (B.Dense kind range vouched cap store → ∀ e ∈ B.reach kind range vouched store,
            (stamp e : Int) < until' → e ∈ w'.handed) := by
  induction fuel with
  | zero =>
      intro n until' w _ _ _ hfuel
      omega
  | succ fuel ih =>
      intro n until' w hle hpos hover hfuel
      by_cases hgt : until' ≤ range.from'
      · refine ⟨w, loop_done X P B kind range now vouched answer hgt, fun e he => he,
          fun e he => Or.inl he, fun _ e he hlt => ?_⟩
        have hfrom := (Finset.mem_filter.mp he).2.2
        omega
      · -- The bound is in force: by the filter, or because nothing lies above it.
        have hbelow : ∀ e ∈ B.reach kind range vouched store,
            (until' < i64Max → (stamp e : Int) < until') → (stamp e : Int) < until' := by
          intro e he hlt
          by_cases hmax : until' < i64Max
          · exact hlt hmax
          · have heq : until' = i64Max := by omega
            rw [heq]
            exact hover e he heq
        rcases loop_step X P B kind range now vouched answer hans hcap hlimit
            (hpos (Int.lt_of_not_ge hgt)) (Int.lt_of_not_ge hgt) (by omega) n w with
          ⟨hend, hempty⟩ | ⟨page, w₁, hpage, hne, hhanded, hloop⟩
        · refine ⟨w, hend fuel, fun e he => he, fun e he => Or.inl he, fun _ e he hlt => ?_⟩
          have hmem := mem_below.mpr ⟨he, fun _ => hlt⟩
          rw [hempty] at hmem
          simp at hmem
        · have hstored : ∀ e ∈ B.below kind range vouched store until',
              (stamp e : Int) < until' := fun e he =>
            hbelow e (mem_below.mp he).1 (mem_below.mp he).2
          have hsigned : ∀ e ∈ page, stamp e < 2 ^ 63 := by
            intro e he
            have hlt := hstored e (hpage.stored e he)
            rw [i64Max] at htop
            omega
          obtain ⟨x, hx, hmin, hold⟩ := oldest_of_signed hne hsigned
          have hxlt := hstored x (hpage.stored x hx)
          have hxreach := (mem_below.mp (hpage.stored x hx)).1
          have hbound := nextBound_of_below hold (hle.trans htop) hxlt
          have hxfrom := (Finset.mem_filter.mp hxreach).2.2
          have hstep : nextBound page until' < until' := by omega
          have hfloor : range.from' < nextBound page until' → 0 < nextBound page until' := by
            have hxpos := hlow x hxreach
            omega
          obtain ⟨w', hrun, hkeep, honly, hall⟩ := ih (n + 1) (nextBound page until') w₁
            (by omega) hfloor (fun e _ heq => by omega) (by omega)
          refine ⟨w', (hloop fuel).trans hrun, fun e he => hkeep e ?_, fun e he => ?_,
            fun hdense e he hlt => ?_⟩
          · rw [hhanded]
            exact List.mem_append_left _ he
          · rcases honly e he with hold | hnew
            · rw [hhanded] at hold
              rcases List.mem_append.mp hold with hold | hnew
              · exact Or.inl hold
              · exact Or.inr (hstored e (hpage.stored e (List.mem_reverse.mp hnew)))
            · right
              omega
          · by_cases hnext : (stamp e : Int) < nextBound page until'
            · exact hall hdense e he hnext
            · have hin := mem_page_of_passed B kind range vouched hpage hdense hle hstored hx hbound
                (mem_below.mpr ⟨he, fun _ => hlt⟩) hnext
              refine hkeep e ?_
              rw [hhanded]
              exact List.mem_append_right _ (List.mem_reverse.mpr hin)

/-! ## The open end -/

/-- Everything of the range was handed to the pipeline. -/
def Backfill.Complete (store : Finset Event) (w : Walked F) : Prop :=
  ∀ e ∈ B.reach kind range vouched store, (stamp e : Int) < range.until' → e ∈ w.handed

/-- The bound is one a filter carries, or no stamp lies at or past `i64::MAX`, or
    none lies before it, or the first page leaves out nothing the walk then steps
    over: everything when a stamp reads as negative, else the last second of the
    range and whatever is stamped `i64::MAX`. -/
def Backfill.Fits (cap : Nat) (store : Finset Event) : Prop :=
  range.until' < i64Max
    ∨ (∀ e ∈ B.reach kind range vouched store, (stamp e : Int) < i64Max)
    ∨ (∀ e ∈ B.reach kind range vouched store, i64Max ≤ (stamp e : Int))
    ∨ (∃ e ∈ B.reach kind range vouched store, 2 ^ 63 ≤ stamp e)
      ∧ (B.reach kind range vouched store).card ≤ min cap B.windowLimit
    ∨ (∀ e ∈ B.reach kind range vouched store, stamp e < 2 ^ 63)
      ∧ (above stamp (B.reach kind range vouched store) (2 ^ 63 - 1)).card
        < min cap B.windowLimit
      ∧ (above stamp (B.reach kind range vouched store) (2 ^ 63 - 2)).card
        ≤ min cap B.windowLimit

/-- Without a bound everything from the floor on matches. -/
theorem below_open (store : Finset Event) :
    B.below kind range vouched store i64Max = B.reach kind range vouched store := by
  rw [Backfill.below]
  exact Finset.filter_true_of_mem fun e _ h => absurd h (lt_irrefl _)

/-- A stamp that reads as negative takes the next second below zero. -/
theorem next_of_negative {page : List Event} {x : Event} (hx : x ∈ page)
    (hneg : 2 ^ 63 ≤ stamp x) : wrapI64 (oldest page + 1) ≤ 0 := by
  obtain ⟨⟨y, -, hold⟩, hle⟩ := oldest_spec (List.ne_nil_of_mem hx)
  have hxneg : x.at < 0 := asI64_of_le hneg
  have hylo : -2 ^ 63 ≤ y.at := (asI64_fits y.createdAt).1
  have hlt := (hle x hx).trans_lt hxneg
  rw [wrapI64_of_fits (by omega) (by omega)]
  omega

/-- So does a page of nothing but `i64::MAX`: the next second wraps. -/
theorem next_of_max {page : List Event} {x : Event} (hold : oldest page = stamp x)
    (hmax : stamp x = 2 ^ 63 - 1) : wrapI64 (oldest page + 1) ≤ 0 := by
  rw [hold, hmax, wrapI64_of_over (by omega) (by omega)]
  norm_num

/-- Either ends the walk. -/
theorem nextBound_of_next {page : List Event} (h : wrapI64 (oldest page + 1) ≤ 0) :
    nextBound page i64Max ≤ 0 := by
  have hmoves : wrapI64 (oldest page + 1) < i64Max := by
    rw [i64Max]
    omega
  rw [nextBound]
  exact (if_pos hmoves).trans_le h

/-- With a stamp at or past `i64::MAX` in reach of an open end, the first two ways
    out are closed. -/
theorem fits_open {cap : Nat} {store : Finset Event} (htop : range.until' = i64Max)
    {past : Event} (hpast : past ∈ B.reach kind range vouched store)
    (hmax : 2 ^ 63 - 1 ≤ stamp past) :
    B.Fits kind range vouched cap store
      ↔ (∀ e ∈ B.reach kind range vouched store, 2 ^ 63 - 1 ≤ stamp e)
        ∨ (∃ e ∈ B.reach kind range vouched store, 2 ^ 63 ≤ stamp e)
          ∧ (B.reach kind range vouched store).card ≤ min cap B.windowLimit
        ∨ (∀ e ∈ B.reach kind range vouched store, stamp e < 2 ^ 63)
          ∧ (above stamp (B.reach kind range vouched store) (2 ^ 63 - 1)).card
            < min cap B.windowLimit
          ∧ (above stamp (B.reach kind range vouched store) (2 ^ 63 - 2)).card
            ≤ min cap B.windowLimit := by
  have hlow : ¬ ∀ e ∈ B.reach kind range vouched store, (stamp e : Int) < i64Max := by
    intro hall
    have hone := hall past hpast
    rw [i64Max] at hone
    omega
  have hhigh : (∀ e ∈ B.reach kind range vouched store, i64Max ≤ (stamp e : Int))
      ↔ ∀ e ∈ B.reach kind range vouched store, 2 ^ 63 - 1 ≤ stamp e := by
    refine forall₂_congr fun e _ => ?_
    rw [i64Max]
    omega
  rw [Backfill.Fits, htop, or_iff_right (lt_irrefl i64Max), or_iff_right hlow, hhigh]

/-- A walk that ends after its first page has handed over that page. -/
theorem complete_of_page {cap : Nat} {store : Finset Event} {page : List Event}
    (hpage : Newest stamp (min cap B.windowLimit) (B.reach kind range vouched store) page)
    (htop : range.until' = i64Max) {w : Walked F} (hw : w.handed = page.reverse) :
    B.Complete kind range vouched store w
      ↔ (∀ e ∈ B.reach kind range vouched store, 2 ^ 63 - 1 ≤ stamp e)
        ∨ (B.reach kind range vouched store).card ≤ min cap B.windowLimit := by
  rw [← hpage.mem_below_iff]
  refine forall₂_congr fun e _ => imp_congr (by rw [htop, i64Max]; omega) ?_
  rw [hw, List.mem_reverse]

/-- A page of nothing but `i64::MAX` ends the walk, so nothing older may be left. -/
theorem complete_of_max_page {cap : Nat} {store : Finset Event} {page : List Event}
    (hpage : Newest stamp (min cap B.windowLimit) (B.reach kind range vouched store) page)
    (htop : range.until' = i64Max) {w : Walked F} (hw : w.handed = page.reverse)
    (hsigned : ∀ e ∈ B.reach kind range vouched store, stamp e < 2 ^ 63)
    (hall : ∀ e ∈ page, 2 ^ 63 - 1 ≤ stamp e) :
    B.Complete kind range vouched store w
      ↔ (∀ e ∈ B.reach kind range vouched store, 2 ^ 63 - 1 ≤ stamp e)
        ∨ (∃ e ∈ B.reach kind range vouched store, 2 ^ 63 ≤ stamp e)
          ∧ (B.reach kind range vouched store).card ≤ min cap B.windowLimit
        ∨ (∀ e ∈ B.reach kind range vouched store, stamp e < 2 ^ 63)
          ∧ (above stamp (B.reach kind range vouched store) (2 ^ 63 - 1)).card
            < min cap B.windowLimit
          ∧ (above stamp (B.reach kind range vouched store) (2 ^ 63 - 2)).card
            ≤ min cap B.windowLimit := by
  -- Whatever is below the mark would have to be on the page, which is all above it.
  have hfull : (∀ e ∈ B.reach kind range vouched store, stamp e < 2 ^ 63 - 1 → e ∈ page)
      → ∀ e ∈ B.reach kind range vouched store, 2 ^ 63 - 1 ≤ stamp e := by
    intro hbelow e he
    by_contra hlow
    exact hlow (hall e (hbelow e he (by omega)))
  rw [complete_of_page B kind range vouched hpage htop hw, ← hpage.mem_below_iff]
  constructor
  · exact fun hbelow => Or.inl (hfull hbelow)
  · rintro (hhigh | ⟨⟨e, he, hneg⟩, -⟩ | ⟨-, hroom, -⟩)
    · exact (hpage.mem_below_iff _).mpr (Or.inl hhigh)
    · exact absurd (hsigned e he) (by omega)
    · refine (hpage.mem_below_iff _).mpr (Or.inr ?_)
      have hsub : page.toFinset ⊆ above stamp (B.reach kind range vouched store) (2 ^ 63 - 1) :=
        fun e he => mem_above.mpr ⟨hpage.stored e (List.mem_toFinset.mp he),
          hall e (List.mem_toFinset.mp he)⟩
      have hcard := Finset.card_le_card hsub
      rw [hpage.card, hpage.length] at hcard
      omega

/-- A walk that went on after its first page has handed over that page and everything
    below the bound it stepped to. -/
theorem complete_of_reached {cap : Nat} {store : Finset Event} {page : List Event}
    (hpage : Newest stamp (min cap B.windowLimit) (B.reach kind range vouched store) page)
    (htop : range.until' = i64Max)
    (hsigned : ∀ e ∈ B.reach kind range vouched store, stamp e < 2 ^ 63)
    {x : Event} (hx : x ∈ page) (hxlow : ¬ 2 ^ 63 - 1 ≤ stamp x) {next : Int}
    (hbound : next = stamp x + 1 ∧ (stamp x : Int) + 1 < range.until'
      ∨ next = stamp x ∧ (stamp x : Int) + 1 = range.until')
    {w : Walked F} (hpaged : ∀ e ∈ page, e ∈ w.handed)
    (honly : ∀ e ∈ w.handed, e ∈ page ∨ (stamp e : Int) < next)
    (hall : ∀ e ∈ B.reach kind range vouched store, (stamp e : Int) < next → e ∈ w.handed) :
    B.Complete kind range vouched store w
      ↔ (∀ e ∈ B.reach kind range vouched store, 2 ^ 63 - 1 ≤ stamp e)
        ∨ (∃ e ∈ B.reach kind range vouched store, 2 ^ 63 ≤ stamp e)
          ∧ (B.reach kind range vouched store).card ≤ min cap B.windowLimit
        ∨ (∀ e ∈ B.reach kind range vouched store, stamp e < 2 ^ 63)
          ∧ (above stamp (B.reach kind range vouched store) (2 ^ 63 - 1)).card
            < min cap B.windowLimit
          ∧ (above stamp (B.reach kind range vouched store) (2 ^ 63 - 2)).card
            ≤ min cap B.windowLimit := by
  rw [htop, i64Max] at hbound
  constructor
  · intro hcomplete
    refine Or.inr (Or.inr ⟨hsigned, hpage.card_above_lt hx (Nat.not_le.mp hxlow), ?_⟩)
    -- What is left out of the last second is above the bound, and is never handed over.
    by_contra hmore
    obtain ⟨e, he, hout⟩ := hpage.exists_left_out (Nat.lt_of_not_le hmore)
    obtain ⟨he, hmark⟩ := mem_above.mp he
    have helow := hpage.newest x hx e he hout
    rcases honly e (hcomplete e he (by rw [htop, i64Max]; omega)) with hin | hlt
    · exact hout hin
    · omega
  · intro hfit e he _
    by_cases hnext : (stamp e : Int) < next
    · exact hall e he hnext
    · by_cases hnewer : stamp x < stamp e
      · exact hpaged e (hpage.mem_of_newer hx he hnewer)
      · rcases hfit with hhigh | ⟨⟨y, hy, hyneg⟩, -⟩ | ⟨-, -, hcard⟩
        · exact absurd (hhigh x (hpage.stored x hx)) hxlow
        · exact absurd (hsigned y hy) (by omega)
        · exact hpaged e (hpage.mem_of_fits hcard (mem_above.mpr ⟨he, by omega⟩))

/-- **WITHOUT A BOUND**: the first page may hold stamps at or past `i64::MAX`, and
    then the walk is complete exactly when that page leaves out nothing it steps
    over. -/
theorem loop_open {cap : Nat} {store : Finset Event} (hans : Answers cap store answer)
    (hcap : 1 ≤ cap) (hlimit : 1 ≤ B.windowLimit)
    (hlt : range.from' < range.until') (htop : range.until' = i64Max)
    (hwide : range.until' - range.from' ≤ maxWindowSecs) {past : Event}
    (hpast : past ∈ B.reach kind range vouched store) (hmax : 2 ^ 63 - 1 ≤ stamp past)
    (w : Walked F) (hw : w.handed = []) :
    ∃ fuel w', B.loop X P kind range now vouched answer fuel 0 range.until' w = some w'
      ∧ (B.Dense kind range vouched cap store →
        (B.Complete kind range vouched store w' ↔ B.Fits kind range vouched cap store)) := by
  have hf : 0 ≤ range.from' := by
    rw [htop, i64Max, maxWindowSecs] at hwide
    omega
  rcases loop_step X P B kind range now vouched answer hans hcap hlimit (by omega) hlt hwide 0 w
    with ⟨-, hempty⟩ | ⟨page, w₁, hpage, hne, hhanded, hloop⟩
  · rw [htop, below_open] at hempty
    rw [hempty] at hpast
    simp at hpast
  rw [htop, below_open] at hpage
  rw [hw, List.nil_append] at hhanded
  rw [fits_open B kind range vouched htop hpast hmax]
  have hended : nextBound page range.until' ≤ 0 →
      B.loop X P kind range now vouched answer 2 0 range.until' w = some w₁ := fun hbound =>
    (hloop 1).trans (loop_done X P B kind range now vouched answer (by omega))
  by_cases hneg : ∃ e ∈ B.reach kind range vouched store, 2 ^ 63 ≤ stamp e
  · obtain ⟨e, he, heneg⟩ := hneg
    obtain ⟨x, hx, hxneg⟩ := hpage.exists_above (by omega) (mem_above.mpr ⟨he, heneg⟩)
    refine ⟨2, w₁, hended (htop ▸ nextBound_of_next (next_of_negative hx hxneg)), fun _ => ?_⟩
    rw [complete_of_page B kind range vouched hpage htop hhanded]
    have hnot : ¬ ∀ e ∈ B.reach kind range vouched store, stamp e < 2 ^ 63 :=
      fun hall => absurd (hall e he) (by omega)
    constructor
    · rintro (hhigh | hcard)
      · exact Or.inl hhigh
      · exact Or.inr (Or.inl ⟨⟨e, he, heneg⟩, hcard⟩)
    · rintro (hhigh | ⟨-, hcard⟩ | ⟨hall, -⟩)
      · exact Or.inl hhigh
      · exact Or.inr hcard
      · exact absurd hall hnot
  · push Not at hneg
    obtain ⟨x, hx, hmin, hold⟩ := oldest_of_signed hne fun e he => hneg e (hpage.stored e he)
    by_cases hxmax : 2 ^ 63 - 1 ≤ stamp x
    · have hxlt := hneg x (hpage.stored x hx)
      refine ⟨2, w₁, hended (htop ▸ nextBound_of_next (next_of_max hold (by omega))), fun _ => ?_⟩
      exact complete_of_max_page B kind range vouched hpage htop hhanded hneg
        fun e he => hxmax.trans (hmin e he)
    · -- The page reaches below `i64::MAX`; from its bound on the walk is an ordinary one.
      have hxlt : (stamp x : Int) < range.until' := by rw [htop, i64Max]; omega
      have hbound := nextBound_of_below hold (le_of_eq htop) hxlt
      have hxfrom := (Finset.mem_filter.mp (hpage.stored x hx)).2.2
      obtain ⟨w', hrun, hkeep, honly, hall⟩ := loop_complete X P B kind range now vouched
        answer hans hcap hlimit (fun _ _ _ => by omega) (le_of_eq htop) hwide
        ((nextBound page range.until' - range.from').toNat + 1) 1
        (nextBound page range.until') w₁ (by omega) (by omega) (fun e _ heq => by omega)
        (by omega)
      refine ⟨_, w', (hloop _).trans hrun, fun hdense => ?_⟩
      refine complete_of_reached B kind range vouched hpage htop hneg hx hxmax hbound
        (fun e he => hkeep e ?_) (fun e he => ?_) fun e he => hall hdense e he
      · rw [hhanded]
        exact List.mem_reverse.mpr he
      · rw [hhanded] at honly
        exact (honly e he).imp_left List.mem_reverse.mp

end Loop

/-! ## The result -/

/-- The walk ends, and where no second is more than a page it is complete exactly
    when its first page fits. -/
theorem walk_ends (X : Externals F) (P : Policy) (B : Backfill) (kind : UInt16) {range : Range}
    {now : Int} (hlt : range.from' < range.until')
    (hwide : range.until' - range.from' ≤ maxWindowSecs) (htop : range.until' ≤ i64Max)
    (hlimit : 1 ≤ B.windowLimit) {cap : Nat} (hcap : 1 ≤ cap) {store : Finset Event}
    {answer : Answer} (hans : Answers cap store answer) (db : Db F) (hpos : 0 < range.until')
    (hlow : ∀ e ∈ B.reach kind range (B.vouched db) store, range.from' < stamp e → 1 ≤ stamp e) :
    ∃ fuel w, B.walk X P kind range now answer db fuel = some w
      ∧ (B.Dense kind range (B.vouched db) cap store →
        (B.Complete kind range (B.vouched db) store w
          ↔ B.Fits kind range (B.vouched db) cap store)) := by
  by_cases hopen : range.until' = i64Max
      ∧ ∃ e ∈ B.reach kind range (B.vouched db) store, 2 ^ 63 - 1 ≤ stamp e
  · obtain ⟨heq, past, hpast, hmax⟩ := hopen
    exact loop_open X P B kind range now _ answer hans hcap hlimit hlt heq hwide hpast hmax
      _ rfl
  · have hover : ∀ e ∈ B.reach kind range (B.vouched db) store, range.until' = i64Max →
        (stamp e : Int) < i64Max := by
      intro e he heq
      by_contra hmax
      rw [i64Max] at hmax
      exact hopen ⟨heq, e, he, by omega⟩
    obtain ⟨w, hrun, -, -, hall⟩ := loop_complete X P B kind range now (B.vouched db) answer
      hans hcap hlimit hlow htop hwide _ 0 range.until' ⟨{}, db, []⟩ le_rfl
      (fun _ => hpos) hover (Nat.lt_succ_self _)
    refine ⟨_, w, hrun, fun hdense => iff_of_true (fun e he => hall hdense e he) ?_⟩
    by_cases hmax : range.until' < i64Max
    · exact Or.inl hmax
    · exact Or.inr (Or.inl fun e he => hover e he (by omega))

/-- **THE WALK IS COMPLETE EXACTLY WHEN ITS FIRST PAGE FITS.**  Over any relay that
    answers with its newest, the walk ends; and no second of the range being more
    than a page, it has handed over every event of the range, unless the range
    ends at `i64::MAX` and stamps past that crowd its first page. -/
theorem walk_complete_iff_fits (X : Externals F) (P : Policy) (B : Backfill) (kind : UInt16)
    {from' until' : Option Int} {now : Int} {range : Range}
    (hrange : resolve from' until' now = .ok range) (hf : 0 ≤ range.from')
    (htop : range.until' ≤ i64Max) (hlimit : 1 ≤ B.windowLimit) {cap : Nat} (hcap : 1 ≤ cap)
    {store : Finset Event} {answer : Answer} (hans : Answers cap store answer) (db : Db F) :
    (∃ w, (∃ fuel, ∀ more, fuel ≤ more → B.walk X P kind range now answer db more = some w)
        ∧ (B.Dense kind range (B.vouched db) cap store →
          B.Complete kind range (B.vouched db) store w))
      ↔ (B.Dense kind range (B.vouched db) cap store →
        B.Fits kind range (B.vouched db) cap store) := by
  obtain ⟨hlt, hwide⟩ := of_resolve hrange
  obtain ⟨fuel, w, hrun, hiff⟩ := walk_ends X P B kind hlt hwide htop hlimit hcap hans db
    (by omega) fun _ _ _ => by omega
  constructor
  · rintro ⟨w', ⟨fuel', hfuel'⟩, hcomplete⟩ hdense
    -- Both runs agree once there is fuel enough for either.
    have hmore := loop_mono X P B kind range now (B.vouched db) answer hrun (max fuel fuel')
      (Nat.le_max_left _ _)
    have hsame : w' = w :=
      Option.some.inj ((hfuel' _ (Nat.le_max_right fuel fuel')).symm.trans hmore)
    exact (hiff hdense).mp (hsame ▸ hcomplete hdense)
  · intro hfits
    refine ⟨w, ⟨fuel, fun more hle => ?_⟩, fun hdense => (hiff hdense).mpr (hfits hdense)⟩
    exact loop_mono X P B kind range now (B.vouched db) answer hrun more hle

/-! ## A relay that sorts what it holds -/

/-- A relay over a list of events, with its own cap on a page. -/
def relay (cap : Nat) (held : List Event) : Answer := fun _ filter =>
  some (firstPage stamp (pageSize cap filter) (held.filter fun e => filter.matches e))

theorem answers_relay (cap : Nat) {held : List Event} (h : held.Nodup) :
    Answers cap held.toFinset (relay cap held) := by
  intro n filter
  refine ⟨_, rfl, ?_⟩
  rw [← List.toFinset_filter]
  exact newest_firstPage stamp _ (h.filter _)

/-- The walk of one relay for any author, five hundred events at a time. -/
def anyone : Backfill := ⟨"wss://a", [], [], 500, some⟩

/-- Two orders two hours apart, one event to a page: both are handed over. -/
theorem two_pages_complete :
    ∃ w, (∃ fuel, ∀ more, fuel ≤ more →
        anyone.walk twoOrders Convergence.openPolicy orderKind ⟨1785500000, 1785700000⟩
          1785700000 (relay 1 [Convergence.pendingOrder, lateOrder]) Db.empty more = some w)
      ∧ (anyone.Dense orderKind ⟨1785500000, 1785700000⟩
          (anyone.vouched (Db.empty : Db Int)) 1
          [Convergence.pendingOrder, lateOrder].toFinset →
        anyone.Complete orderKind ⟨1785500000, 1785700000⟩
          (anyone.vouched (Db.empty : Db Int))
          [Convergence.pendingOrder, lateOrder].toFinset w) :=
  (walk_complete_iff_fits twoOrders Convergence.openPolicy anyone orderKind
    (show resolve (some 1785500000) none 1785700000 = .ok ⟨1785500000, 1785700000⟩ by decide)
    (by decide) (by decide) (by decide) (le_refl 1) (answers_relay 1 (by decide))
    Db.empty).mpr fun _ => Or.inl (by decide)

/-- An order of the range's last second. -/
def lastOrder : Event :=
  Convergence.orderEvent "1000000000000000000000000000000000000000000000000000000000000011"
    Convergence.alice 9223372036854775806 "pending"

/-- An order stamped past what an `i64` holds. -/
def pastOrder : Event :=
  Convergence.orderEvent "1000000000000000000000000000000000000000000000000000000000000012"
    Convergence.alice 9223372036854775808 "pending"

def lastAndPast : Externals Int := Externals.over [lastOrder, pastOrder] (by decide) []

/-- **A STAMP PAST `i64::MAX` ENDS THE WALK**: the range runs to `i64::MAX`, the
    filter carries no bound, the first page is the order stamped past it, and the
    order inside the range is never asked for. -/
theorem past_order_hides_last :
    resolve (some 9223372036854775000) (some 9223372036854775807) 1785700000
        = .ok ⟨9223372036854775000, 9223372036854775807⟩
      ∧ Answers 1 [lastOrder, pastOrder].toFinset (relay 1 [lastOrder, pastOrder])
      ∧ anyone.Dense orderKind ⟨9223372036854775000, 9223372036854775807⟩
        (anyone.vouched (Db.empty : Db Int)) 1 [lastOrder, pastOrder].toFinset
      ∧ ∃ w, (∀ fuel, 2 ≤ fuel →
          anyone.walk lastAndPast Convergence.openPolicy orderKind
            ⟨9223372036854775000, 9223372036854775807⟩ 1785700000
            (relay 1 [lastOrder, pastOrder]) Db.empty fuel = some w)
        ∧ ¬ anyone.Complete orderKind ⟨9223372036854775000, 9223372036854775807⟩
          (anyone.vouched (Db.empty : Db Int)) [lastOrder, pastOrder].toFinset w := by
  have hhanded : (anyone.walk lastAndPast Convergence.openPolicy orderKind
      ⟨9223372036854775000, 9223372036854775807⟩ 1785700000
      (relay 1 [lastOrder, pastOrder]) Db.empty 2).map Walked.handed = some [pastOrder] := by
    decide +kernel
  obtain ⟨w, hrun, hw⟩ := Option.map_eq_some_iff.mp hhanded
  refine ⟨by decide, answers_relay 1 (by decide), ?_, w, ?_, ?_⟩
  · intro second _ hlt
    have hsub : ((anyone.reach orderKind ⟨9223372036854775000, 9223372036854775807⟩
        (anyone.vouched (Db.empty : Db Int)) [lastOrder, pastOrder].toFinset).filter
        (stamp · = second)) ⊆ {lastOrder} := by
      intro e he
      obtain ⟨hreach, hsecond⟩ := Finset.mem_filter.mp he
      have hheld := List.mem_toFinset.mp (Finset.mem_filter.mp hreach).1
      simp only [List.mem_cons, List.not_mem_nil, or_false] at hheld
      rcases hheld with rfl | rfl
      · exact Finset.mem_singleton_self _
      · have hstamp : stamp pastOrder = 9223372036854775808 := by decide
        dsimp only at hlt
        omega
    exact (Finset.card_le_card hsub).trans (le_of_eq (Finset.card_singleton _))
  · exact fun fuel hfuel => loop_mono lastAndPast Convergence.openPolicy anyone orderKind _ _ _ _
      hrun fuel hfuel
  · intro hcomplete
    have hreach : lastOrder ∈ anyone.reach orderKind
        ⟨9223372036854775000, 9223372036854775807⟩ (anyone.vouched (Db.empty : Db Int))
        [lastOrder, pastOrder].toFinset :=
      Finset.mem_filter.mpr ⟨by decide, by decide +kernel, by decide⟩
    have hin := hcomplete lastOrder hreach (by decide)
    rw [hw] at hin
    exact absurd hin (by decide)

end History
