import Bestiario.Backfill

/-! # What a walk says of what it skips

    A walk that cannot move its bound steps past the second, and warns of it when
    the page is as long as what was asked for.  A relay that caps its pages below
    that never fills one: it can cut any second short, and the walk says nothing.

    `Backfill.loopLogged` is the loop with its warnings beside it. -/

namespace History

open Keyed Wire Parse Repo Pipeline Sync Paging

variable {F : Type}

/-! ## The warning -/

/-- The second a window warns of: the bound did not move, and the page is full. -/
def Backfill.warning (B : Backfill) (events : List Event) (until' : Int) : List Int :=
  let fullPage := decide (events.length ≥ B.windowLimit)
  let next := wrapI64 (oldest events + 1)
  if next < until' then []
  else if fullPage then [oldest events]
  else []

/-- The loop of `Backfill::walk`, and the seconds it warned of. -/
def Backfill.loopLogged (X : Externals F) (P : Policy) (B : Backfill) (kind : UInt16)
    (range : Range) (now : Int) (vouched : List String) (answer : Answer) :
    Nat → Nat → Int → Walked F → List Int → Option (Walked F × List Int)
  | 0, _, _, _, _ => none
  | fuel + 1, n, until', w, log =>
      if until' > range.from' then
        match resolve (some range.from') (some until') now with
        | .error _ => some (w, log)
        | .ok window =>
          match forKind kind B.authors vouched (some window) (some B.windowLimit) with
          | none => some (w, log)
          | some filter =>
            match answer n filter with
            | none => some (w, log)
            | some [] => some (w, log)
            | some (e :: rest) =>
                let events := e :: rest
                let (counts, db) := B.ingestWindow X P now events w.db
                B.loopLogged X P kind range now vouched answer fuel (n + 1)
                  (nextBound events until')
                  ⟨w.counts.add counts, db, w.handed ++ events.reverse⟩
                  (log ++ B.warning events until')
      else some (w, log)

/-- `Backfill::walk`, and the seconds it warned of. -/
def Backfill.walkLogged (X : Externals F) (P : Policy) (B : Backfill) (kind : UInt16)
    (range : Range) (now : Int) (answer : Answer) (db : Db F) (fuel : Nat) :
    Option (Walked F × List Int) :=
  B.loopLogged X P kind range now (B.vouched db) answer fuel 0 range.until' ⟨{}, db, []⟩ []

section Loop

variable (X : Externals F) (P : Policy) (B : Backfill) (kind : UInt16) (range : Range)
  (now : Int) (vouched : List String) (answer : Answer)

/-- One turn of the loop, and what it logs. -/
theorem loopLogged_succ (fuel n : Nat) (until' : Int) (w : Walked F) (log : List Int) :
    B.loopLogged X P kind range now vouched answer (fuel + 1) n until' w log
      = match B.asked kind range now vouched answer n until' with
        | none => some (w, log)
        | some page => B.loopLogged X P kind range now vouched answer fuel (n + 1)
            (nextBound page until') (B.took X P now page w) (log ++ B.warning page until') := by
  rw [Backfill.loopLogged, Backfill.asked]
  by_cases hgt : until' > range.from'
  · rw [if_pos hgt, if_pos hgt]
    cases resolve (some range.from') (some until') now with
    | error _ => rfl
    | ok window =>
        dsimp only
        cases forKind kind B.authors vouched (some window) (some B.windowLimit) with
        | none => rfl
        | some filter =>
            dsimp only
            cases answer n filter with
            | none => rfl
            | some page =>
                cases page with
                | nil => rfl
                | cons e rest => rfl
  · rw [if_neg hgt, if_neg hgt]

/-- Without its log it is the walk. -/
theorem loopLogged_fst (fuel : Nat) : ∀ (n : Nat) (until' : Int) (w : Walked F) (log : List Int),
    (B.loopLogged X P kind range now vouched answer fuel n until' w log).map Prod.fst
      = B.loop X P kind range now vouched answer fuel n until' w := by
  induction fuel with
  | zero => exact fun _ _ _ _ => rfl
  | succ fuel ih =>
      intro n until' w log
      rw [loopLogged_succ, loop_succ]
      cases B.asked kind range now vouched answer n until' with
      | none => rfl
      | some page => exact ih _ _ _ _

/-- What is handed over and what is logged stays so. -/
theorem loopLogged_grows {fuel : Nat} : ∀ {n : Nat} {until' : Int} {w w' : Walked F}
    {log log' : List Int},
    B.loopLogged X P kind range now vouched answer fuel n until' w log = some (w', log') →
      (∀ e ∈ w.handed, e ∈ w'.handed) ∧ log <+: log' := by
  induction fuel with
  | zero => exact fun h => nomatch h
  | succ fuel ih =>
      intro n until' w w' log log' h
      rw [loopLogged_succ] at h
      cases hasked : B.asked kind range now vouched answer n until' with
      | none =>
          rw [hasked] at h
          cases h
          exact ⟨fun e he => he, List.prefix_refl log⟩
      | some page =>
          rw [hasked] at h
          obtain ⟨hkept, hlog⟩ := ih h
          exact ⟨fun e he => hkept e (List.mem_append_left _ he),
            (List.prefix_append _ _).trans hlog⟩

/-- A walk that ends without a warning was silent all along, and each page it was
    handed is handed over. -/
theorem silent_step {fuel n : Nat} {until' : Int} {w w' : Walked F} {page : List Event}
    (h : B.loopLogged X P kind range now vouched answer (fuel + 1) n until' w [] = some (w', []))
    (hasked : B.asked kind range now vouched answer n until' = some page) :
    B.warning page until' = [] ∧ (∀ e ∈ page, e ∈ w'.handed)
      ∧ B.loopLogged X P kind range now vouched answer fuel (n + 1) (nextBound page until')
          (B.took X P now page w) [] = some (w', []) := by
  rw [loopLogged_succ, hasked] at h
  dsimp only at h
  obtain ⟨hkept, hlog⟩ := loopLogged_grows X P B kind range now vouched answer h
  have hsilent : B.warning page until' = [] := List.prefix_nil.mp hlog
  rw [hsilent, List.append_nil] at h
  exact ⟨hsilent, fun e he => hkept e (List.mem_append_right _ (List.mem_reverse.mpr he)), h⟩

/-- Where the bound moves there is nothing to warn of. -/
theorem warning_of_moved {page : List Event} {until' : Int}
    (h : wrapI64 (oldest page + 1) < until') : B.warning page until' = [] := by
  rw [Backfill.warning]
  exact if_pos h

/-- Nor is there where the page has room to spare. -/
theorem warning_of_short {page : List Event} (until' : Int) (h : page.length < B.windowLimit) :
    B.warning page until' = [] := by
  rw [Backfill.warning]
  split_ifs with hmoved hfull
  · rfl
  · exact absurd (of_decide_eq_true hfull) (Nat.not_le.mpr h)
  · rfl

/-- A page that did not move the bound and was not warned of has room to spare. -/
theorem short_of_silent {page : List Event} {until' : Int}
    (h : ¬ wrapI64 (oldest page + 1) < until') (hsilent : B.warning page until' = []) :
    page.length < B.windowLimit := by
  by_contra hfull
  rw [Backfill.warning, if_neg h, if_pos (decide_eq_true (Nat.not_lt.mp hfull))] at hsilent
  exact List.cons_ne_nil _ _ hsilent

/-- Where a page comes from. -/
theorem of_asked {n : Nat} {until' : Int} {page : List Event}
    (h : B.asked kind range now vouched answer n until' = some page) :
    range.from' < until' ∧ page ≠ [] ∧ ∃ filter,
      forKind kind B.authors vouched (some ⟨range.from', until'⟩) (some B.windowLimit)
        = some filter ∧ answer n filter = some page := by
  rw [Backfill.asked] at h
  split_ifs at h with hgt
  cases hresolve : resolve (some range.from') (some until') now with
  | error _ =>
      rw [hresolve] at h
      cases h
  | ok window =>
      rw [hresolve] at h
      have hwindow : window = ⟨range.from', until'⟩ := by
        rw [resolve] at hresolve
        split_ifs at hresolve
        exact (Except.ok.inj hresolve).symm
      dsimp only at h
      rw [hwindow] at h
      cases hfilter : forKind kind B.authors vouched (some ⟨range.from', until'⟩)
          (some B.windowLimit) with
      | none =>
          rw [hfilter] at h
          cases h
      | some filter =>
          rw [hfilter] at h
          dsimp only at h
          cases hpage : answer n filter with
          | none =>
              rw [hpage] at h
              cases h
          | some events =>
              rw [hpage] at h
              cases events with
              | nil => cases h
              | cons e rest =>
                  cases h
                  exact ⟨hgt, List.cons_ne_nil e rest, filter, rfl, hpage⟩

/-! ## A page filled to what was asked for -/

section Full

variable {store : Finset Event} {cap : Nat} (hans : Answers cap store answer) (hcap : 1 ≤ cap)
  (hlimit : 1 ≤ B.windowLimit)

include hans hcap hlimit

/-- **NOTHING IS SKIPPED IN SILENCE** by a relay that fills its pages, below a bound
    it respects. -/
theorem complete_of_silent (hfull : B.windowLimit ≤ cap) (htop : range.until' ≤ i64Max)
    (hwide : range.until' - range.from' ≤ maxWindowSecs) {fuel : Nat} :
    ∀ {n : Nat} {until' : Int} {w w' : Walked F}, until' ≤ range.until' →
      (∀ e ∈ B.reach kind range vouched store, until' = i64Max → (stamp e : Int) < i64Max) →
      B.loopLogged X P kind range now vouched answer fuel n until' w [] = some (w', []) →
        ∀ e ∈ B.reach kind range vouched store, (stamp e : Int) < until' → e ∈ w'.handed := by
  induction fuel with
  | zero => exact fun _ _ h => nomatch h
  | succ fuel ih =>
      intro n until' w w' hle hover h e he hlt
      have hfrom := (Finset.mem_filter.mp he).2.2
      have hin : e ∈ B.below kind range vouched store until' := mem_below.mpr ⟨he, fun _ => hlt⟩
      have hpos : 0 < until' := by omega
      have hgt : range.from' < until' := by omega
      rcases asked_spec B kind range now vouched answer hans hcap hlimit hpos hgt (by omega) n
        with ⟨-, hempty⟩ | ⟨page, hasked, hne, hpage⟩
      · rw [hempty] at hin
        simp at hin
      · obtain ⟨hsilent, hhanded, hrest⟩ :=
          silent_step X P B kind range now vouched answer h hasked
        by_cases hepage : e ∈ page
        · exact hhanded e hepage
        · have hstored : ∀ a ∈ page, a ∈ B.reach kind range vouched store
              ∧ (stamp a : Int) < until' := by
            intro a ha
            obtain ⟨hreach, hbelow⟩ := mem_below.mp (hpage.stored a ha)
            refine ⟨hreach, ?_⟩
            by_cases hmax : until' < i64Max
            · exact hbelow hmax
            · have heq : until' = i64Max := by omega
              rw [heq]
              exact hover a hreach heq
          obtain ⟨x, hx, hmin, hold⟩ := oldest_of_signed hne fun a ha => by
            have halt := (hstored a ha).2
            rw [i64Max] at htop
            omega
          have hxlt := (hstored x hx).2
          -- Whoever is not on the page is no newer than its oldest.
          have hex : stamp e ≤ stamp x := by
            by_contra hnewer
            exact hepage (hpage.mem_of_newer hx hin (by omega))
          rcases nextBound_of_below hold (hle.trans htop) hxlt with ⟨hnext, hmoves⟩ |
            ⟨-, hstays⟩
          · refine ih ?_ (fun _ _ heq => ?_) hrest e he ?_
            · omega
            · omega
            · omega
          · refine absurd (hpage.mem_of_short ?_ hin) hepage
            have hwrap : wrapI64 (oldest page + 1) = stamp x + 1 := by
              rw [hold]
              rw [i64Max] at htop
              exact wrapI64_of_fits (by omega) (by omega)
            have hshort := short_of_silent B (by omega) hsilent
            omega

/-- The same without a bound: a first page of the newest hides what lies behind
    stamps the walk cannot step down from. -/
theorem complete_of_silent_open (hfull : B.windowLimit ≤ cap)
    (hlt : range.from' < range.until') (htop : range.until' = i64Max)
    (hwide : range.until' - range.from' ≤ maxWindowSecs)
    (hends : (∃ e ∈ B.reach kind range vouched store, 2 ^ 63 ≤ stamp e)
        ∧ (B.reach kind range vouched store).card ≤ min cap B.windowLimit
      ∨ (∀ e ∈ B.reach kind range vouched store, stamp e < 2 ^ 63)
        ∧ (above stamp (B.reach kind range vouched store) (2 ^ 63 - 1)).card
          < min cap B.windowLimit) {fuel : Nat} {w w' : Walked F}
    (h : B.loopLogged X P kind range now vouched answer fuel 0 range.until' w []
      = some (w', [])) : B.Complete kind range vouched store w' := by
  intro e he helt
  have hfrom := (Finset.mem_filter.mp he).2.2
  obtain ⟨fuel, rfl⟩ : ∃ m, fuel = m + 1 := Nat.exists_eq_succ_of_ne_zero (by
    rintro rfl
    exact nomatch h)
  rcases asked_spec B kind range now vouched answer hans hcap hlimit (by omega) hlt hwide 0 with
    ⟨-, hempty⟩ | ⟨page, hasked, hne, hpage⟩
  · rw [htop, below_open] at hempty
    rw [hempty] at he
    simp at he
  rw [htop, below_open] at hpage
  obtain ⟨hsilent, hhanded, hrest⟩ := silent_step X P B kind range now vouched answer h hasked
  by_cases hepage : e ∈ page
  · exact hhanded e hepage
  rcases hends with ⟨-, hcard⟩ | ⟨hsigned, hroom⟩
  · have hall : (above stamp (B.reach kind range vouched store) 0).card ≤ min cap B.windowLimit :=
      (card_above_le 0).trans hcard
    exact absurd (hpage.mem_of_fits hall (mem_above.mpr ⟨he, Nat.zero_le _⟩)) hepage
  obtain ⟨x, hx, hmin, hold⟩ := oldest_of_signed hne fun a ha => hsigned a (hpage.stored a ha)
  have hex : stamp e ≤ stamp x := by
    by_contra hnewer
    exact hepage (hpage.mem_of_newer hx he (by omega))
  -- A page with room to spare would hold `e`, so this one is full and reaches below the end.
  have hlong : min cap B.windowLimit ≤ page.length := by
    by_contra hshort
    exact hepage (hpage.mem_of_short (Nat.lt_of_not_le hshort) he)
  have hxlt : (stamp x : Int) < range.until' := by
    by_contra hmax
    have hsub : page.toFinset ⊆ above stamp (B.reach kind range vouched store) (2 ^ 63 - 1) := by
      intro a ha
      have hxa := hmin a (List.mem_toFinset.mp ha)
      refine mem_above.mpr ⟨hpage.stored a (List.mem_toFinset.mp ha), ?_⟩
      rw [htop, i64Max] at hmax
      omega
    have hcard := Finset.card_le_card hsub
    rw [hpage.card] at hcard
    omega
  rcases nextBound_of_below hold (le_of_eq htop) hxlt with ⟨hnext, hmoves⟩ | ⟨-, hstays⟩
  · refine complete_of_silent X P B kind range now vouched answer hans hcap hlimit hfull
      (le_of_eq htop) hwide ?_ (fun _ _ heq => ?_) hrest e he ?_
    · omega
    · omega
    · omega
  · have hwrap : wrapI64 (oldest page + 1) = stamp x + 1 := by
      rw [hold]
      rw [htop, i64Max] at hstays
      exact wrapI64_of_fits (by omega) (by omega)
    have hshort := short_of_silent B (by omega) hsilent
    omega

/-- Otherwise the first page ends the walk, in silence, with something of the range
    behind it. -/
theorem silent_of_open (hlt : range.from' < range.until') (htop : range.until' = i64Max)
    (hwide : range.until' - range.from' ≤ maxWindowSecs)
    (hlow : ¬ ∀ e ∈ B.reach kind range vouched store, i64Max ≤ (stamp e : Int))
    (hhigh : (∃ e ∈ B.reach kind range vouched store, 2 ^ 63 ≤ stamp e)
        ∧ min cap B.windowLimit < (B.reach kind range vouched store).card
      ∨ (∀ e ∈ B.reach kind range vouched store, stamp e < 2 ^ 63)
        ∧ min cap B.windowLimit
          ≤ (above stamp (B.reach kind range vouched store) (2 ^ 63 - 1)).card)
    {w : Walked F} (hw : w.handed = []) :
    ∃ w', B.loopLogged X P kind range now vouched answer 2 0 range.until' w [] = some (w', [])
      ∧ ¬ B.Complete kind range vouched store w' := by
  have hlow' : ¬ ∀ e ∈ B.reach kind range vouched store, 2 ^ 63 - 1 ≤ stamp e := by
    refine fun hall => hlow fun e he => ?_
    have hone := hall e he
    rw [i64Max]
    omega
  have hf : 0 ≤ range.from' := by
    rw [htop, i64Max, maxWindowSecs] at hwide
    omega
  rcases asked_spec B kind range now vouched answer hans hcap hlimit (by omega) hlt hwide 0 with
    ⟨-, hempty⟩ | ⟨page, hasked, hne, hpage⟩
  · rw [htop, below_open] at hempty
    rw [hempty] at hlow'
    simp at hlow'
  rw [htop, below_open] at hpage
  -- The page steps the bound to zero or below, and leaves something out.
  obtain ⟨hnext, hover⟩ : wrapI64 (oldest page + 1) ≤ 0
      ∧ min cap B.windowLimit < (B.reach kind range vouched store).card := by
    rcases hhigh with ⟨⟨e, he, hneg⟩, hcard⟩ | ⟨hsigned, hmany⟩
    · obtain ⟨x, hx, hxneg⟩ := hpage.exists_above (by omega) (mem_above.mpr ⟨he, hneg⟩)
      exact ⟨next_of_negative hx hxneg, hcard⟩
    · obtain ⟨low, hreach, hbelow⟩ : ∃ e ∈ B.reach kind range vouched store,
          stamp e < 2 ^ 63 - 1 := by
        push Not at hlow'
        exact hlow'
      have hproper : above stamp (B.reach kind range vouched store) (2 ^ 63 - 1)
          ⊂ B.reach kind range vouched store :=
        (Finset.ssubset_iff_of_subset (Finset.filter_subset _ _)).mpr
          ⟨low, hreach, fun hin => absurd (mem_above.mp hin).2 (by omega)⟩
      obtain ⟨x, hx, hmin, hold⟩ := oldest_of_signed hne fun a ha => hsigned a (hpage.stored a ha)
      refine ⟨next_of_max hold ?_, hmany.trans_lt (Finset.card_lt_card hproper)⟩
      have hxlt := hsigned x (hpage.stored x hx)
      -- As many of `i64::MAX` as a page holds leave room for nothing older.
      by_contra hxlow
      refine absurd hx (hpage.notMem_of_behind (hmany.trans (Finset.card_le_card ?_)))
      intro a ha
      obtain ⟨hreach, hmark⟩ := mem_above.mp ha
      exact Finset.mem_filter.mpr ⟨hreach, by omega⟩
  refine ⟨B.took X P now page w, ?_, ?_⟩
  · have hmoved : wrapI64 (oldest page + 1) < i64Max := by
      rw [i64Max]
      omega
    rw [loopLogged_succ, hasked]
    dsimp only
    rw [htop, warning_of_moved B hmoved, loopLogged_succ,
      asked_done B kind range now vouched answer ((nextBound_of_next hnext).trans hf)]
    rfl
  · intro hcomplete
    have hhanded : (B.took X P now page w).handed = page.reverse := by
      rw [Backfill.took, hw, List.nil_append]
    rcases (complete_of_page B kind range vouched hpage htop hhanded).mp hcomplete with hall | hfit
    · exact hlow' hall
    · omega

/-! ## A floor below zero -/

/-- A window that reaches down to the second zero is answered with something, and
    with nothing it cannot step to. -/
theorem page_of_zero {zero : Event} (hzero : zero ∈ B.reach kind range vouched store)
    (hstamp : stamp zero = 0) {until' : Int} (hgt : range.from' < until')
    (htop : until' < i64Max) (hwide : until' - range.from' ≤ maxWindowSecs)
    (hfloor : range.from' ≤ 0) (n : Nat) :
    ∃ page, B.asked kind range now vouched answer n until' = some page ∧ page ≠ []
      ∧ ∀ e ∈ page, (stamp e : Int) ≤ max (until' - 1) 0 := by
  obtain ⟨hstore, hwanted, -⟩ := Finset.mem_filter.mp hzero
  rw [Backfill.asked, if_pos hgt, resolve_narrowed hgt hwide]
  dsimp only
  cases hfilter : forKind kind B.authors vouched (some ⟨range.from', until'⟩)
      (some B.windowLimit) with
  | none =>
      rw [wants_of_none hfilter zero] at hwanted
      cases hwanted
  | some filter =>
      obtain ⟨page, hpage, hnewest⟩ := hans n filter
      -- A bound below zero is clamped: the filter still asks up to second zero.
      have hbound : (window ⟨range.from', until'⟩).2 = some (max (until' - 1) 0).toNat :=
        if_pos htop
      have hmatches : filter.matches zero = true := by
        refine (matches_window hfilter zero).mpr
          ⟨hwanted, (since_iff ⟨range.from', until'⟩ zero).mpr ?_, ?_⟩
        · show range.from' ≤ stamp zero
          omega
        · rw [hbound, Option.all_some, decide_eq_true_eq]
          show stamp zero ≤ _
          omega
      have hsize : pageSize cap filter = min cap B.windowLimit :=
        pageSize_of_forKind cap hfilter
      have hne : page ≠ [] := by
        intro hnil
        have hempty := (hnewest.eq_nil_iff (by omega)).mp hnil
        have hin : zero ∈ store.filter fun e => filter.matches e = true :=
          Finset.mem_filter.mpr ⟨hstore, hmatches⟩
        rw [hempty] at hin
        simp at hin
      refine ⟨page, ?_, hne, fun e he => ?_⟩
      · dsimp only
        rw [hpage]
        cases page with
        | nil => exact absurd rfl hne
        | cons e rest => rfl
      · have hin := (Finset.mem_filter.mp (hnewest.stored e he)).2
        have hlate := ((matches_window hfilter e).mp hin).2.2
        rw [hbound, Option.all_some, decide_eq_true_eq] at hlate
        replace hlate : stamp e ≤ _ := hlate
        omega

/-- **A WALK THAT NEVER ENDS**: with a floor below zero the bound stays at the second
    zero while that second holds anything. -/
theorem loop_stuck (htop : range.until' < i64Max) (hfloor : range.from' < 0) {zero : Event}
    (hzero : zero ∈ B.reach kind range vouched store) (hstamp : stamp zero = 0)
    (hwide : range.until' - range.from' ≤ maxWindowSecs) (fuel : Nat) :
    ∀ (n : Nat) (until' : Int) (w : Walked F), 0 ≤ until' → until' ≤ range.until' →
      B.loop X P kind range now vouched answer fuel n until' w = none := by
  induction fuel with
  | zero => exact fun _ _ _ _ _ => rfl
  | succ fuel ih =>
      intro n until' w hpos hle
      have hgt : range.from' < until' := by omega
      obtain ⟨page, hasked, hne, hlate⟩ := page_of_zero B kind range now vouched answer hans hcap
        hlimit hzero hstamp hgt (by omega) (by omega) (by omega) n
      rw [i64Max] at htop
      obtain ⟨x, hx, -, hold⟩ := oldest_of_signed hne fun e he => by
        have hle := hlate e he
        omega
      have hxle := hlate x hx
      have hwrap : wrapI64 (oldest page + 1) = stamp x + 1 := by
        rw [hold]
        exact wrapI64_of_fits (by omega) (by omega)
      have hbound : 0 ≤ nextBound page until' ∧ nextBound page until' ≤ range.until' := by
        rw [nextBound, hwrap]
        split_ifs
        · omega
        · omega
      rw [loop_succ, hasked]
      exact ih (n + 1) _ _ hbound.1 hbound.2

/-! ## A page that is never filled -/

omit hcap hlimit in
/-- A relay that caps its pages below what is asked for is never warned of. -/
theorem silent_of_capped (hcapped : cap < B.windowLimit) (fuel : Nat) :
    ∀ (n : Nat) (until' : Int) (w w' : Walked F),
      B.loop X P kind range now vouched answer fuel n until' w = some w' →
        B.loopLogged X P kind range now vouched answer fuel n until' w [] = some (w', []) := by
  induction fuel with
  | zero => exact fun _ _ _ _ h => nomatch h
  | succ fuel ih =>
      intro n until' w w' h
      rw [loop_succ] at h
      rw [loopLogged_succ]
      cases hasked : B.asked kind range now vouched answer n until' with
      | none =>
          rw [hasked] at h
          cases h
          rfl
      | some page =>
          rw [hasked] at h
          obtain ⟨-, -, filter, hfilter, hpage⟩ := of_asked B kind range now vouched answer hasked
          obtain ⟨events, hevents, hnewest⟩ := hans n filter
          cases hpage.symm.trans hevents
          have hsize : pageSize cap filter = min cap B.windowLimit :=
            pageSize_of_forKind cap hfilter
          have hshort : page.length < B.windowLimit := by
            rw [hnewest.length, hsize]
            omega
          dsimp only
          rw [warning_of_short B until' hshort, List.append_nil]
          exact ih _ _ _ _ h

end Full

/-! ## A relay with a last choice -/

/-- Newest first, and of its second `v` last. -/
def behind (v : Event) (e : Event) : Nat := 2 * stamp e + if e = v then 0 else 1

theorem stamp_le_of_behind {v a b : Event} (h : behind v a ≤ behind v b) :
    stamp a ≤ stamp b := by
  rw [behind, behind] at h
  split_ifs at h
  · omega
  · omega
  · omega
  · omega

/-- A relay that hands out `v` only after everything else of its second. -/
def shunning (v : Event) (cap : Nat) (held : List Event) : Answer := fun _ filter =>
  some (firstPage (behind v) (pageSize cap filter) (held.filter fun e => filter.matches e))

theorem newest_shunning (v : Event) (cap : Nat) {held : List Event} (h : held.Nodup) (n : Nat)
    (filter : Filter) : ∃ page, shunning v cap held n filter = some page
      ∧ Newest (behind v) (pageSize cap filter)
          (held.toFinset.filter fun e => filter.matches e = true) page := by
  refine ⟨_, rfl, ?_⟩
  rw [← List.toFinset_filter]
  exact newest_firstPage (behind v) _ (h.filter _)

theorem answers_shunning (v : Event) (cap : Nat) {held : List Event} (h : held.Nodup) :
    Answers cap held.toFinset (shunning v cap held) := by
  intro n filter
  obtain ⟨page, hpage, hnewest⟩ := newest_shunning v cap h n filter
  exact ⟨page, hpage, hnewest.coarsen fun a b => stamp_le_of_behind⟩

/-- **THE LAST CHOICE IS NEVER HANDED OVER** when its second holds more than a page. -/
theorem shunned {v : Event} {cap : Nat} {held : List Event} (h : held.Nodup)
    (hv : v ∈ B.reach kind range vouched held.toFinset)
    (hcrowd : min cap B.windowLimit
      < ((B.reach kind range vouched held.toFinset).filter (stamp · = stamp v)).card)
    (fuel : Nat) : ∀ (n : Nat) (until' : Int) (w w' : Walked F), v ∉ w.handed →
      B.loop X P kind range now vouched (shunning v cap held) fuel n until' w = some w' →
        v ∉ w'.handed := by
  induction fuel with
  | zero => exact fun _ _ _ _ _ hrun => nomatch hrun
  | succ fuel ih =>
      intro n until' w w' hout hrun
      rw [loop_succ] at hrun
      cases hasked : B.asked kind range now vouched (shunning v cap held) n until' with
      | none =>
          rw [hasked] at hrun
          cases hrun
          exact hout
      | some page =>
          rw [hasked] at hrun
          refine ih _ _ _ _ (fun hin => ?_) hrun
          rcases List.mem_append.mp hin with hin | hin
          · exact hout hin
          obtain ⟨-, -, filter, hfilter, hpage⟩ := of_asked B kind range now vouched _ hasked
          obtain ⟨events, hevents, hnewest⟩ := newest_shunning v cap h n filter
          cases hpage.symm.trans hevents
          have hsize : pageSize cap filter = min cap B.windowLimit :=
            pageSize_of_forKind cap hfilter
          have hvpage : v ∈ page := List.mem_reverse.mp hin
          have hvmatches := (Finset.mem_filter.mp (hnewest.stored v hvpage)).2
          refine hnewest.notMem_of_behind ?_ hvpage
          -- All of the second matches where `v` does, and comes before it.
          have hsub : ((B.reach kind range vouched held.toFinset).filter
              (stamp · = stamp v)).erase v ⊆
              (held.toFinset.filter fun e => filter.matches e = true).filter
                (behind v v < behind v ·) := by
            intro e he
            obtain ⟨hne, he⟩ := Finset.mem_erase.mp he
            obtain ⟨hreach, hsecond⟩ := Finset.mem_filter.mp he
            obtain ⟨hheld, hwanted, -⟩ := Finset.mem_filter.mp hreach
            obtain ⟨-, hsince, huntil⟩ := (matches_window hfilter v).mp hvmatches
            have hclock : e.createdAt.toNat = v.createdAt.toNat := hsecond
            refine Finset.mem_filter.mpr ⟨Finset.mem_filter.mpr ⟨hheld, ?_⟩, ?_⟩
            · refine (matches_window hfilter e).mpr ⟨hwanted, ?_, ?_⟩
              · rw [hclock]
                exact hsince
              · rw [hclock]
                exact huntil
            · rw [behind, behind, if_pos rfl, if_neg hne, hsecond]
              omega
          have hcard := Finset.card_le_card hsub
          have hself : v ∈ (B.reach kind range vouched held.toFinset).filter
              (stamp · = stamp v) := Finset.mem_filter.mpr ⟨hv, rfl⟩
          rw [Finset.card_erase_of_mem hself] at hcard
          rw [hsize]
          omega

end Loop

/-! ## The result -/

/-- The walk never ends: its floor is below zero and the second zero holds something. -/
def Backfill.Stuck (B : Backfill) (kind : UInt16) (range : Range) (vouched : List String)
    (store : Finset Event) : Prop :=
  range.from' < 0 ∧ 0 < range.until' ∧ ∃ e ∈ B.reach kind range vouched store, stamp e = 0

/-- The relay fills its pages, and an open end hides nothing behind the first. -/
def Backfill.Fills (B : Backfill) (kind : UInt16) (range : Range) (vouched : List String)
    (cap : Nat) (store : Finset Event) : Prop :=
  B.windowLimit ≤ cap
    ∧ (range.until' < i64Max
      ∨ (∀ e ∈ B.reach kind range vouched store, (stamp e : Int) < i64Max)
      ∨ (∀ e ∈ B.reach kind range vouched store, i64Max ≤ (stamp e : Int))
      ∨ (∃ e ∈ B.reach kind range vouched store, 2 ^ 63 ≤ stamp e)
        ∧ (B.reach kind range vouched store).card ≤ min cap B.windowLimit
      ∨ (∀ e ∈ B.reach kind range vouched store, stamp e < 2 ^ 63)
        ∧ (above stamp (B.reach kind range vouched store) (2 ^ 63 - 1)).card
          < min cap B.windowLimit)

/-- Some relay holds just these. -/
theorem answers_toList (cap : Nat) (store : Finset Event) :
    Answers cap store (relay cap store.toList) := by
  have hans := answers_relay cap store.nodup_toList
  rw [Finset.toList_toFinset] at hans
  exact hans

section Silence

variable (X : Externals F) (P : Policy) (B : Backfill) (kind : UInt16) {range : Range} {now : Int}
  {cap : Nat} {store : Finset Event} {db : Db F} (hlt : range.from' < range.until')
  (hwide : range.until' - range.from' ≤ maxWindowSecs) (htop : range.until' ≤ i64Max)
  (hlimit : 1 ≤ B.windowLimit) (hcap : 1 ≤ cap)

include hlt hwide htop hlimit hcap

/-- A walk that moves ends, whatever the relay. -/
theorem ends_of_moves (hmoves : ¬ B.Stuck kind range (B.vouched db) store)
    (hpos : 0 < range.until') {answer : Answer} (hans : Answers cap store answer) :
    ∃ fuel w, B.walk X P kind range now answer db fuel = some w
      ∧ (B.Dense kind range (B.vouched db) cap store →
        (B.Complete kind range (B.vouched db) store w
          ↔ B.Fits kind range (B.vouched db) cap store)) := by
  refine walk_ends X P B kind hlt hwide htop hlimit hcap hans db hpos fun e he hfrom => ?_
  by_contra hzero
  exact hmoves ⟨by omega, hpos, e, he, by omega⟩

/-- A relay that could fill its pages does not hide anything behind an open end. -/
theorem fills_of_silence (hfull : B.windowLimit ≤ cap)
    (h : ∀ answer, Answers cap store answer → ∀ fuel w,
      B.walkLogged X P kind range now answer db fuel = some (w, []) →
        B.Complete kind range (B.vouched db) store w) :
    B.Fills kind range (B.vouched db) cap store := by
  have hsorted : Answers cap store (relay cap store.toList) := answers_toList cap store
  refine ⟨hfull, ?_⟩
  by_contra hopen
  rw [not_or, not_or, not_or, not_or] at hopen
  obtain ⟨hmax, -, hnotall, hneg, hroom⟩ := hopen
  have heq : range.until' = i64Max := le_antisymm htop (Int.not_lt.mp hmax)
  have hhigh : (∃ e ∈ B.reach kind range (B.vouched db) store, 2 ^ 63 ≤ stamp e)
        ∧ min cap B.windowLimit < (B.reach kind range (B.vouched db) store).card
      ∨ (∀ e ∈ B.reach kind range (B.vouched db) store, stamp e < 2 ^ 63)
        ∧ min cap B.windowLimit
          ≤ (above stamp (B.reach kind range (B.vouched db) store) (2 ^ 63 - 1)).card := by
    by_cases hsome : ∃ e ∈ B.reach kind range (B.vouched db) store, 2 ^ 63 ≤ stamp e
    · exact .inl ⟨hsome, Nat.lt_of_not_le fun hle => hneg ⟨hsome, hle⟩⟩
    · push Not at hsome
      exact .inr ⟨hsome, Nat.not_lt.mp fun hfew => hroom ⟨hsome, hfew⟩⟩
  obtain ⟨w, hrun, hincomplete⟩ := silent_of_open X P B kind range now (B.vouched db) _
    hsorted hcap hlimit hlt heq hwide hnotall hhigh (w := ⟨{}, db, []⟩) rfl
  exact hincomplete (h _ hsorted 2 w hrun)

/-- A relay that never fills a page never warns, so its seconds have to fit one: it
    could leave out its last choice of a crowded one. -/
theorem dense_of_silence (hcapped : cap < B.windowLimit)
    (hmoves : ¬ B.Stuck kind range (B.vouched db) store) (hpos : 0 < range.until')
    (h : ∀ answer, Answers cap store answer → ∀ fuel w,
      B.walkLogged X P kind range now answer db fuel = some (w, []) →
        B.Complete kind range (B.vouched db) store w) :
    B.Dense kind range (B.vouched db) cap store := by
  have hstore : store.toList.toFinset = store := Finset.toList_toFinset store
  intro second hfrom huntil
  by_contra hcrowd
  rw [Nat.not_le] at hcrowd
  obtain ⟨v, hv⟩ := Finset.card_pos.mp (Nat.zero_lt_of_lt hcrowd)
  obtain ⟨hreach, hstamp⟩ := Finset.mem_filter.mp hv
  have hans := answers_shunning v cap store.nodup_toList
  rw [hstore] at hans
  obtain ⟨fuel, w, hrun, -⟩ :=
    ends_of_moves X P B kind hlt hwide htop hlimit hcap hmoves hpos hans
  have hcomplete := h _ hans fuel w
    (silent_of_capped X P B kind range now _ _ hans hcapped fuel _ _ _ _ hrun)
  refine shunned X P B kind range now (B.vouched db) (v := v) store.nodup_toList ?_ ?_
    fuel 0 range.until' _ w (List.not_mem_nil (a := v)) hrun (hcomplete v hreach ?_)
  · rw [hstore]
    exact hreach
  · rw [hstore, hstamp]
    exact hcrowd
  · rw [hstamp]
    exact huntil

/-- A relay that fills its pages and hides nothing behind the first warns of every
    second it cuts. -/
theorem complete_of_fills (h : B.Fills kind range (B.vouched db) cap store) {answer : Answer}
    (hans : Answers cap store answer) {fuel : Nat} {w : Walked F}
    (hrun : B.walkLogged X P kind range now answer db fuel = some (w, [])) :
    B.Complete kind range (B.vouched db) store w := by
  obtain ⟨hfull, hopen⟩ := h
  by_cases hhigh : range.until' = i64Max
      ∧ ∃ e ∈ B.reach kind range (B.vouched db) store, i64Max ≤ (stamp e : Int)
  · obtain ⟨heq, past, hpast, hmax⟩ := hhigh
    rcases hopen with hlt' | hall | hall | hends
    · omega
    · exact absurd (hall past hpast) (by omega)
    · intro e he hlate
      have hone := hall e he
      omega
    · exact complete_of_silent_open X P B kind range now (B.vouched db) answer hans hcap
        hlimit hfull hlt heq hwide hends hrun
  · intro e he hlate
    refine complete_of_silent X P B kind range now (B.vouched db) answer hans hcap hlimit
      hfull htop hwide le_rfl (fun a ha heq => ?_) hrun e he hlate
    by_contra hmax
    exact hhigh ⟨heq, a, ha, Int.not_lt.mp hmax⟩

end Silence

/-- **NO SILENCE EXACTLY WHEN** the walk never ends, or the relay fills the pages it is
    asked for, or no second is more than one of its pages.  Over every relay that
    answers with its newest, a walk that ends without a warning has handed over
    everything of the range iff one of the three holds. -/
theorem complete_of_silence_iff (X : Externals F) (P : Policy) (B : Backfill) (kind : UInt16)
    {from' until' : Option Int} {now : Int} {range : Range}
    (hrange : resolve from' until' now = .ok range) (htop : range.until' ≤ i64Max)
    (hlimit : 1 ≤ B.windowLimit) {cap : Nat} (hcap : 1 ≤ cap) (store : Finset Event)
    (db : Db F) :
    (∀ answer, Answers cap store answer → ∀ fuel w,
        B.walkLogged X P kind range now answer db fuel = some (w, []) →
          B.Complete kind range (B.vouched db) store w)
      ↔ B.Stuck kind range (B.vouched db) store
        ∨ B.Fills kind range (B.vouched db) cap store
        ∨ B.Dense kind range (B.vouched db) cap store
          ∧ B.Fits kind range (B.vouched db) cap store := by
  obtain ⟨hlt, hwide⟩ := of_resolve hrange
  have hsorted : Answers cap store (relay cap store.toList) := answers_toList cap store
  constructor
  · intro h
    by_cases hmoves : B.Stuck kind range (B.vouched db) store
    · exact .inl hmoves
    refine .inr ?_
    by_cases hfull : B.windowLimit ≤ cap
    · exact .inl (fills_of_silence X P B kind hlt hwide htop hlimit hcap hfull h)
    refine .inr ?_
    have hcapped : cap < B.windowLimit := Nat.lt_of_not_le hfull
    by_cases hpos : 0 < range.until'
    · have hdense := dense_of_silence X P B kind hlt hwide htop hlimit hcap hcapped hmoves hpos h
      refine ⟨hdense, ?_⟩
      obtain ⟨fuel, w, hrun, hiff⟩ :=
        ends_of_moves X P B kind hlt hwide htop hlimit hcap hmoves hpos hsorted
      exact (hiff hdense).mp (h _ hsorted fuel w
        (silent_of_capped X P B kind range now _ _ hsorted hcapped fuel _ _ _ _ hrun))
    · refine ⟨fun second _ huntil => by omega, .inl ?_⟩
      rw [i64Max]
      omega
  · intro h answer hans fuel w hrun
    have hloop : B.walk X P kind range now answer db fuel = some w := by
      rw [Backfill.walk, ← loopLogged_fst X P B kind range now (B.vouched db) answer fuel 0 _ _ []]
      exact congrArg (Option.map Prod.fst) hrun
    by_cases hpos : 0 < range.until'
    swap
    · -- Nothing is stamped before the second zero.
      intro e _ hlate
      omega
    by_cases hmoves : B.Stuck kind range (B.vouched db) store
    · obtain ⟨hfloor, -, zero, hzero, hstamp⟩ := hmoves
      have hnone := loop_stuck X P B kind range now (B.vouched db) answer hans hcap hlimit
        (by rw [i64Max]; rw [maxWindowSecs] at hwide; omega) hfloor hzero hstamp hwide fuel 0
        range.until' ⟨{}, db, []⟩ hpos.le le_rfl
      cases hnone.symm.trans hloop
    rcases h with hstuck | hfills | ⟨hdense, hfits⟩
    · exact absurd hstuck hmoves
    · exact complete_of_fills X P B kind hlt hwide htop hlimit hcap hfills hans hrun
    · -- The walk that ends is the one that ended without a warning.
      obtain ⟨fuel', w', hrun', hiff⟩ :=
        ends_of_moves X P B kind hlt hwide htop hlimit hcap hmoves hpos hans
      have hmore := loop_mono X P B kind range now (B.vouched db) answer hrun' (max fuel fuel')
        (Nat.le_max_right _ _)
      have hmore' := loop_mono X P B kind range now (B.vouched db) answer hloop (max fuel fuel')
        (Nat.le_max_left _ _)
      have hsame : w' = w := Option.some.inj (hmore.symm.trans hmore')
      exact hsame ▸ (hiff hdense).mpr hfits

/-! ## A second cut short -/

/-- Another order of the second of `Convergence.pendingOrder`. -/
def twinOrder : Event :=
  Convergence.orderEvent "1000000000000000000000000000000000000000000000000000000000000021"
    Convergence.alice 1785600000 "pending"

def twins : Externals Int :=
  Externals.over [Convergence.pendingOrder, twinOrder] (by decide) []

/-- A relay that fills its pages hands over both. -/
theorem twins_complete :
    ∃ w, anyone.walkLogged twins Convergence.openPolicy orderKind ⟨1785500000, 1785700000⟩
        1785700000 (relay 500 [Convergence.pendingOrder, twinOrder]) Db.empty 3 = some (w, [])
      ∧ anyone.Complete orderKind ⟨1785500000, 1785700000⟩ (anyone.vouched (Db.empty : Db Int))
        [Convergence.pendingOrder, twinOrder].toFinset w := by
  have hsilent : (anyone.walkLogged twins Convergence.openPolicy orderKind
      ⟨1785500000, 1785700000⟩ 1785700000 (relay 500 [Convergence.pendingOrder, twinOrder])
      Db.empty 3).map Prod.snd = some [] := by decide +kernel
  obtain ⟨⟨w, log⟩, hrun, rfl⟩ := Option.map_eq_some_iff.mp hsilent
  refine ⟨w, hrun, ?_⟩
  exact (complete_of_silence_iff twins Convergence.openPolicy anyone orderKind
    (show resolve (some 1785500000) none 1785700000 = .ok ⟨1785500000, 1785700000⟩ by decide)
    (by decide) (by decide) (by decide : 1 ≤ 500) _ Db.empty).mpr
    (.inr (.inl ⟨by decide, .inl (by decide)⟩)) _ (answers_relay 500 (by decide)) 3 w hrun

/-- **ONE OF TWO, AND NOT A WORD**: a relay that caps a page at one event holds two of
    one second; the walk ends without a warning and was never handed the other. -/
theorem twin_skipped :
    Answers 1 [Convergence.pendingOrder, twinOrder].toFinset
        (relay 1 [Convergence.pendingOrder, twinOrder])
      ∧ ∃ w, anyone.walkLogged twins Convergence.openPolicy orderKind
          ⟨1785500000, 1785700000⟩ 1785700000 (relay 1 [Convergence.pendingOrder, twinOrder])
          Db.empty 3 = some (w, [])
        ∧ ¬ anyone.Complete orderKind ⟨1785500000, 1785700000⟩
          (anyone.vouched (Db.empty : Db Int)) [Convergence.pendingOrder, twinOrder].toFinset
          w := by
  have hran : (anyone.walkLogged twins Convergence.openPolicy orderKind
      ⟨1785500000, 1785700000⟩ 1785700000 (relay 1 [Convergence.pendingOrder, twinOrder])
      Db.empty 3).map (fun run => (run.1.handed, run.2))
        = some ([Convergence.pendingOrder, Convergence.pendingOrder], []) := by
    decide +kernel
  obtain ⟨⟨w, log⟩, hrun, hboth⟩ := Option.map_eq_some_iff.mp hran
  obtain ⟨hhanded, rfl⟩ := Prod.mk.inj hboth
  refine ⟨answers_relay 1 (by decide), w, hrun, fun hcomplete => ?_⟩
  have hreach : twinOrder ∈ anyone.reach orderKind ⟨1785500000, 1785700000⟩
      (anyone.vouched (Db.empty : Db Int)) [Convergence.pendingOrder, twinOrder].toFinset :=
    Finset.mem_filter.mpr ⟨by decide, by decide +kernel, by decide⟩
  have hin := hcomplete twinOrder hreach (by decide)
  rw [hhanded] at hin
  exact absurd hin (by decide)

end History
