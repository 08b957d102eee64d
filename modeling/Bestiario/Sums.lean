import Bestiario.Fees
import Bestiario.Lib.Running

/-! # Sats that add up

    The volume figures split the completed orders five ways (by size, by side, by
    currency, by what became of their price, by whose price it was) and add them
    up under two disciplines: an exact sum narrowed at the end, and a running
    `i64` that gives up once it leaves.  Of sats that are not negative the two
    agree, and every split conserves the orders and the sats.

    The dev fees are added up under a third, plain `i64` addition, which wraps. -/

namespace Stats

open Keyed Groups Running Wire RateBook

variable {F : Type}

/-! ## Two disciplines, one sum -/

/-- The running sum that gives up is the exact sum narrowed. -/
theorem foldl_addSats {sats : List Int} (h : ∀ n ∈ sats, 0 ≤ n) :
    sats.foldl addSats (some 0) = sumSats sats := by
  have hsum : 0 ≤ sats.sum := List.sum_nonneg h
  have hstep : addSats = checked (-2 ^ 63) (2 ^ 63) := rfl
  rw [hstep, foldl_checked h (by norm_num) (by norm_num), sumSats, Int.zero_add]
  by_cases hfits : sats.sum < 2 ^ 63
  · rw [if_pos hfits, if_pos ⟨by omega, hfits⟩]
  · rw [if_neg hfits, if_neg fun hboth => hfits hboth.2]

/-- A sum is withheld exactly when it exceeds `i64::MAX`. -/
theorem sumSats_eq_none_iff {sats : List Int} (h : ∀ n ∈ sats, 0 ≤ n) :
    sumSats sats = none ↔ 2 ^ 63 - 1 < sats.sum := by
  have hsum : 0 ≤ sats.sum := List.sum_nonneg h
  rw [sumSats]
  split_ifs with hfits
  · exact iff_of_false (fun heq => nomatch heq) (by omega)
  · exact iff_of_true rfl (by omega)

theorem eq_sum_of_sumSats {sats : List Int} {total : Int} (h : sumSats sats = some total) :
    total = sats.sum := by
  rw [sumSats] at h
  split_ifs at h
  exact (Option.some.inj h).symm

/-- Where the whole is given, so is any part of it. -/
theorem sumSats_part {whole part : List Int} (h : ∀ n ∈ whole, 0 ≤ n)
    (hpart : part.Sublist whole) (hwhole : sumSats whole ≠ none) :
    sumSats part = some part.sum := by
  have hle : part.sum ≤ whole.sum := hpart.sum_le_sum h
  have hpos : 0 ≤ part.sum := List.sum_nonneg fun n hn => h n (hpart.subset hn)
  have hfits : whole.sum < 2 ^ 63 := by
    by_contra hover
    exact hwhole ((sumSats_eq_none_iff h).mpr (by omega))
  rw [sumSats, if_pos ⟨by omega, by omega⟩]

/-! ## Sizes -/

/-- Every size has a bucket: the last is open. -/
theorem sizeBucket_lt (size : Int) : sizeBucket size < 5 := by
  have hopen : ∃ bucket ∈ sizeBuckets, (bucket.2.all fun upper => decide (size ≤ upper)) = true :=
    ⟨("gt_1m", none), by decide, rfl⟩
  exact List.findIdx_lt_length.mpr hopen

theorem sum_modify (buckets : List Nat) {i : Nat} (h : i < buckets.length) :
    (buckets.modify i (· + 1)).sum = buckets.sum + 1 := by
  induction buckets generalizing i with
  | nil => exact absurd h (Nat.not_lt_zero i)
  | cons n rest ih =>
      cases i with
      | zero =>
          rw [List.modify_zero_cons, List.sum_cons, List.sum_cons]
          omega
      | succ i =>
          rw [List.modify_succ_cons, List.sum_cons, List.sum_cons,
            ih (Nat.lt_of_succ_lt_succ h)]
          omega

/-- Each size is counted in one of the five. -/
theorem sum_sizes (sizes : List Int) (buckets : List Nat) (h : buckets.length = 5) :
    (sizes.foldl (fun buckets size => buckets.modify (sizeBucket size) (· + 1)) buckets).length
        = 5
      ∧ (sizes.foldl (fun buckets size => buckets.modify (sizeBucket size) (· + 1)) buckets).sum
        = buckets.sum + sizes.length := by
  induction sizes generalizing buckets with
  | nil => exact ⟨h, rfl⟩
  | cons size rest ih =>
      have hlength : (buckets.modify (sizeBucket size) (· + 1)).length = 5 := by
        rw [List.length_modify, h]
      have hlt : sizeBucket size < buckets.length := h ▸ sizeBucket_lt size
      obtain ⟨hfive, hsum⟩ := ih _ hlength
      refine ⟨hfive, ?_⟩
      rw [List.foldl_cons, hsum, sum_modify buckets hlt, List.length_cons]
      omega

/-! ## Sides and currencies -/

/-- **THE VOLUME OF A WINDOW CONSERVES ITS ORDERS**: by size, by side, by currency. -/
structure Conserves (orders : List (Order F)) (window : Window) (volume : Volume F) : Prop where
  completed : volume.completed = (completedIn orders window).length
  sizes : volume.buckets.length = 5 ∧ volume.buckets.sum = volume.completed
  withheld : volume.sats = none
    ↔ 2 ^ 63 - 1 < ((completedIn orders window).map Order.amountSats).sum
  exact : ∀ total, volume.sats = some total →
    total = ((completedIn orders window).map Order.amountSats).sum
  sides : ∀ total, volume.sats = some total → ∃ buy sell,
    volume.buySats = some buy ∧ volume.sellSats = some sell ∧ buy + sell = total
  currencies : ∀ total, volume.sats = some total → ∃ amounts : List Int,
    (volume.fiat.map fun entry => entry.2.sats) = amounts.map some ∧ amounts.sum = total
  counts : (volume.fiat.map fun entry => entry.2.completed).sum = volume.completed
    ∧ ∀ entry ∈ volume.fiat, entry.2.orders ≤ entry.2.completed

theorem sum_sides (done : List (Order F)) :
    ((done.filter fun order => order.direction == .buy).map Order.amountSats).sum
      + ((done.filter fun order => order.direction == .sell).map Order.amountSats).sum
      = (done.map Order.amountSats).sum := by
  induction done with
  | nil => rfl
  | cons order rest ih =>
      rw [List.map_cons, List.sum_cons, ← ih, List.filter_cons, List.filter_cons]
      cases order.direction with
      | buy =>
          rw [if_pos (beq_self_eq_true _), if_neg (by decide), List.map_cons, List.sum_cons]
          omega
      | sell =>
          rw [if_neg (by decide), if_pos (beq_self_eq_true _), List.map_cons, List.sum_cons]
          omega

theorem summarise_conserves (A : Floats F) {orders : List (Order F)} (window : Window)
    (h : ∀ order ∈ orders, 0 ≤ order.amountSats) :
    Conserves orders window (Volume.summarise A orders window) := by
  have hdone : ∀ n ∈ (completedIn orders window).map Order.amountSats, 0 ≤ n := by
    intro n hn
    obtain ⟨order, hmem, rfl⟩ := List.mem_map.mp hn
    exact h order (List.mem_filter.mp (List.mem_filter.mp hmem).1).1
  have hpart : ∀ total, (Volume.summarise A orders window).sats = some total →
      ∀ part : List (Order F), part.Sublist (completedIn orders window) →
        sumSats (part.map Order.amountSats) = some (part.map Order.amountSats).sum := by
    intro total htotal part hsub
    refine sumSats_part hdone (hsub.map _) fun hnone => ?_
    exact nomatch hnone.symm.trans htotal
  constructor
  case completed => rfl
  case sizes =>
    obtain ⟨hfive, hsum⟩ := sum_sizes ((completedIn orders window).map Order.amountSats)
      [0, 0, 0, 0, 0] rfl
    refine ⟨hfive, hsum.trans ?_⟩
    rw [List.length_map]
    exact Nat.zero_add _
  case withheld => exact sumSats_eq_none_iff hdone
  case exact => exact fun total htotal => eq_sum_of_sumSats htotal
  case sides =>
    intro total htotal
    refine ⟨_, _, hpart total htotal _ List.filter_sublist,
      hpart total htotal _ List.filter_sublist, ?_⟩
    rw [sum_sides]
    exact (eq_sum_of_sumSats htotal).symm
  case currencies =>
    intro total htotal
    refine ⟨(groups Order.fiatCode (completedIn orders window)).map fun group =>
      (group.2.map Order.amountSats).sum, ?_, ?_⟩
    · show List.map _ (List.map _ _) = _
      rw [List.map_map, List.map_map]
      refine List.map_congr_left fun group hgroup => ?_
      obtain ⟨code, -, rfl⟩ := List.mem_map.mp hgroup
      exact hpart total htotal _ List.filter_sublist
    · rw [sum_groups]
      exact (eq_sum_of_sumSats htotal).symm
  case counts =>
    constructor
    · show (List.map _ (List.map _ _)).sum = (completedIn orders window).length
      have hones := sum_groups Order.fiatCode (fun _ : Order F => 1) (completedIn orders window)
      simp only [List.map_const', List.sum_replicate, smul_eq_mul, mul_one] at hones
      rw [← hones, List.map_map]
      refine congrArg List.sum (List.map_congr_left fun group _ => ?_)
      exact List.length_map _
    · intro entry hentry
      obtain ⟨group, -, rfl⟩ := List.mem_map.mp hentry
      show (group.2.filterMap Order.fiatAmount).length ≤ (group.2.map Order.amountSats).length
      rw [List.length_map]
      exact List.length_filterMap_le _ _

/-! ## What became of each price -/

/-- The quote an order settled at. -/
def quoteOf (book : Book F) (code : String) (order : Order F) : Option (RateQuote F) :=
  order.successAt.bind (book.rateAt order.pubkey code)

/-- Nobody had a rate. -/
def isUnpriced (book : Book F) (code : String) (order : Order F) : Bool :=
  (quoteOf book code order).isNone

/-- There was a rate, and the conversion is no number. -/
def isUnusable (A : Floats F) (book : Book F) (code : String) (order : Order F) : Bool :=
  (quoteOf book code order).any fun quote => !A.isFinite (convertSats A quote order.amountSats)

/-- There was a rate, and the conversion is a number. -/
def isPriced (A : Floats F) (book : Book F) (code : String) (order : Order F) : Bool :=
  (quoteOf book code order).any fun quote => A.isFinite (convertSats A quote order.amountSats)

/-- Priced at this other instance's rate. -/
def isLent (A : Floats F) (book : Book F) (code pubkey : String) (order : Order F) : Bool :=
  isPriced A book code order
    && (quoteOf book code order).any fun quote => quote.source == .fallback pubkey

/-- The running sum of the sats of some orders. -/
def satsOf (orders : List (Order F)) : Option Int :=
  (orders.map Order.amountSats).foldl addSats (some 0)

theorem satsOf_concat (orders : List (Order F)) (order : Order F) :
    satsOf (orders ++ [order]) = addSats (satsOf orders) order.amountSats := by
  rw [satsOf, List.map_append, List.foldl_append]
  rfl

section Concat

variable {p : Order F → Bool} (done : List (Order F)) {order : Order F}

theorem countP_concat_pos (h : p order = true) :
    (done ++ [order]).countP p = done.countP p + 1 := by
  rw [List.countP_append, List.countP_cons_of_pos h, List.countP_nil]

theorem countP_concat_neg (h : p order = false) : (done ++ [order]).countP p = done.countP p := by
  rw [List.countP_append, List.countP_cons_of_neg (by rw [h]; exact Bool.false_ne_true),
    List.countP_nil, Nat.add_zero]

theorem satsOf_concat_pos (h : p order = true) :
    satsOf ((done ++ [order]).filter p) = addSats (satsOf (done.filter p)) order.amountSats := by
  rw [List.filter_append, List.filter_cons_of_pos h, List.filter_nil, satsOf_concat]

theorem satsOf_concat_neg (h : p order = false) :
    satsOf ((done ++ [order]).filter p) = satsOf (done.filter p) := by
  rw [List.filter_append, List.filter_cons_of_neg (by rw [h]; exact Bool.false_ne_true),
    List.filter_nil, List.append_nil]

end Concat

section Tally

variable (A : Floats F) (book : Book F) (code : String)

/-- What the loop of `convert` has counted of the orders so far. -/
structure Tally (done : List (Order F)) (converted : Converted F) : Prop where
  priced : converted.priced = done.countP (isPriced A book code)
  unpriced : converted.unpriced = done.countP (isUnpriced book code)
  unpricedSats : converted.unpricedSats = satsOf (done.filter (isUnpriced book code))
  unusable : converted.unusable = done.countP (isUnusable A book code)
  unusableSats : converted.unusableSats = satsOf (done.filter (isUnusable A book code))
  borrowed : ∀ pubkey : String, (converted.borrowed[pubkey]?).getD {}
    = ⟨done.countP (isLent A book code pubkey), satsOf (done.filter (isLent A book code pubkey))⟩
  lenders : ∀ pubkey : String, converted.borrowed[pubkey]? ≠ none
    ↔ ∃ order ∈ done, isLent A book code pubkey order = true

theorem tally_empty :
    Tally A book code [] ({ code, total := some (A.ofInt 0) } : Converted F) where
  priced := rfl
  unpriced := rfl
  unpricedSats := rfl
  unusable := rfl
  unusableSats := rfl
  borrowed pubkey := by
    rw [Std.ExtTreeMap.getElem?_empty]
    rfl
  lenders pubkey := by
    rw [Std.ExtTreeMap.getElem?_empty]
    exact iff_of_false (fun h => h rfl) (fun ⟨_, hmem, _⟩ => nomatch hmem)

/-- What one publisher has lent. -/
structure Tally.Lent (done : List (Order F)) (borrowed : Table String Borrowed)
    (pubkey : String) : Prop where
  entry : (borrowed[pubkey]?).getD {}
    = ⟨done.countP (isLent A book code pubkey), satsOf (done.filter (isLent A book code pubkey))⟩
  lender : borrowed[pubkey]? ≠ none ↔ ∃ order ∈ done, isLent A book code pubkey order = true

/-- What has been borrowed, once an order is priced at a rate of this source. -/
def lend (converted : Converted F) (order : Order F) : RateSource → Table String Borrowed
  | .fallback lender =>
      let borrowed := (converted.borrowed[lender]?).getD {}
      converted.borrowed.insert lender
        ⟨borrowed.orders + 1, addSats borrowed.sats order.amountSats⟩
  | .ownInstance => converted.borrowed

variable {A book code}

section Step

variable {done : List (Order F)} {converted : Converted F} {order : Order F}

/-- Of one who lent nothing now, nothing changes. -/
theorem Tally.kept (h : Tally A book code done converted) {pubkey : String}
    (hnot : isLent A book code pubkey order = false) :
    Tally.Lent A book code (done ++ [order]) converted.borrowed pubkey := by
  constructor
  · rw [countP_concat_neg done hnot, satsOf_concat_neg done hnot]
    exact h.borrowed pubkey
  · refine (h.lenders pubkey).trans ?_
    constructor
    · rintro ⟨o, ho, hlent⟩
      exact ⟨o, List.mem_append_left _ ho, hlent⟩
    · rintro ⟨o, ho, hlent⟩
      rcases List.mem_append.mp ho with ho | ho
      · exact ⟨o, ho, hlent⟩
      · rw [List.mem_singleton.mp ho, hnot] at hlent
        cases hlent

/-- Of the lender, the order is counted and its sats are added; only its entry is
    touched. -/
theorem Tally.lent (h : Tally A book code done converted) {lender : String}
    (hlent : ∀ pubkey, isLent A book code pubkey order = decide (lender = pubkey))
    (pubkey : String) :
    Tally.Lent A book code (done ++ [order])
      (converted.borrowed.insert lender ⟨((converted.borrowed[lender]?).getD {}).orders + 1,
        addSats ((converted.borrowed[lender]?).getD {}).sats order.amountSats⟩) pubkey := by
  by_cases heq : lender = pubkey
  · subst heq
    have hself : isLent A book code lender order = true :=
      (hlent lender).trans (decide_eq_true rfl)
    constructor
    · rw [getElem?_insert_eq, if_pos rfl, countP_concat_pos done hself,
        satsOf_concat_pos done hself, h.borrowed lender]
      rfl
    · rw [getElem?_insert_eq, if_pos rfl]
      refine iff_of_true (Option.some_ne_none _) ⟨order, ?_, hself⟩
      exact List.mem_append_right _ (List.mem_singleton.mpr rfl)
  · obtain ⟨entry, others⟩ := h.kept ((hlent pubkey).trans (decide_eq_false heq))
    constructor
    · rw [getElem?_insert_eq, if_neg heq]
      exact entry
    · rw [getElem?_insert_eq, if_neg heq]
      exact others

theorem isLent_of_not_priced (h : isPriced A book code order = false) (pubkey : String) :
    isLent A book code pubkey order = false := by
  rw [isLent, h, Bool.false_and]

theorem isLent_of_priced {quote : RateQuote F} (hquote : quoteOf book code order = some quote)
    (h : isPriced A book code order = true) (pubkey : String) :
    isLent A book code pubkey order = (quote.source == .fallback pubkey) := by
  rw [isLent, h, hquote]
  rfl

/-- Without a quote it is unpriced, and nothing else. -/
theorem fate_of_none (A : Floats F) (hquote : quoteOf book code order = none) :
    isUnpriced book code order = true ∧ isUnusable A book code order = false
      ∧ isPriced A book code order = false := by
  rw [isUnpriced, isUnusable, isPriced, hquote]
  exact ⟨rfl, rfl, rfl⟩

/-- With one it is priced when its conversion is a number, and unusable when not. -/
theorem fate_of_some {quote : RateQuote F} (hquote : quoteOf book code order = some quote) :
    isUnpriced book code order = false
      ∧ isUnusable A book code order = !A.isFinite (convertSats A quote order.amountSats)
      ∧ isPriced A book code order = A.isFinite (convertSats A quote order.amountSats) := by
  rw [isUnpriced, isUnusable, isPriced, hquote]
  exact ⟨rfl, rfl, rfl⟩

/-- What a priced order lends goes to the source of its quote. -/
theorem Tally.lend (h : Tally A book code done converted) {quote : RateQuote F}
    (hquote : quoteOf book code order = some quote) (hpriced : isPriced A book code order = true)
    (pubkey : String) :
    Tally.Lent A book code (done ++ [order]) (Stats.lend converted order quote.source) pubkey := by
  cases hsource : quote.source with
  | ownInstance => exact h.kept (by rw [isLent_of_priced hquote hpriced, hsource]; rfl)
  | fallback lender =>
      refine h.lent (fun other => ?_) pubkey
      rw [isLent_of_priced hquote hpriced, hsource, Bool.eq_iff_iff, beq_iff_eq,
        decide_eq_true_iff]
      exact ⟨RateSource.fallback.inj, congrArg _⟩

/-- **STEP**: an order is unpriced, unusable or priced, and lent at most once. -/
theorem tally_step (h : Tally A book code done converted) (hsettled : order.successAt ≠ none) :
    Tally A book code (done ++ [order]) (Converted.step A book code converted order) := by
  obtain ⟨settledAt, hat⟩ := Option.ne_none_iff_exists'.mp hsettled
  have hquoted : quoteOf book code order = book.rateAt order.pubkey code settledAt := by
    rw [quoteOf, hat]
    rfl
  rw [Converted.step, hat]
  dsimp only
  cases hq : book.rateAt order.pubkey code settledAt with
  | none =>
      obtain ⟨hun, hus, hpr⟩ := fate_of_none A (hquoted.trans hq)
      have hle := isLent_of_not_priced hpr
      constructor
      case priced => exact h.priced.trans (countP_concat_neg done hpr).symm
      case unpriced =>
        rw [countP_concat_pos done hun, ← h.unpriced]
      case unpricedSats =>
        rw [satsOf_concat_pos done hun, ← h.unpricedSats]
      case unusable => exact h.unusable.trans (countP_concat_neg done hus).symm
      case unusableSats => exact h.unusableSats.trans (satsOf_concat_neg done hus).symm
      case borrowed => exact fun pubkey => (h.kept (hle pubkey)).entry
      case lenders => exact fun pubkey => (h.kept (hle pubkey)).lender
  | some quote =>
      have hquote := hquoted.trans hq
      obtain ⟨hun, hus, hpr⟩ := fate_of_some hquote
      dsimp only
      cases hfinite : A.isFinite (convertSats A quote order.amountSats) with
      | false =>
          rw [hfinite] at hus hpr
          have hle := isLent_of_not_priced hpr
          rw [if_pos (by rfl)]
          constructor
          case priced => exact h.priced.trans (countP_concat_neg done hpr).symm
          case unpriced => exact h.unpriced.trans (countP_concat_neg done hun).symm
          case unpricedSats => exact h.unpricedSats.trans (satsOf_concat_neg done hun).symm
          case unusable =>
            rw [countP_concat_pos done hus, ← h.unusable]
          case unusableSats =>
            rw [satsOf_concat_pos done hus, ← h.unusableSats]
          case borrowed => exact fun pubkey => (h.kept (hle pubkey)).entry
          case lenders => exact fun pubkey => (h.kept (hle pubkey)).lender
      | true =>
          rw [hfinite] at hus hpr
          rw [if_neg (by decide)]
          constructor
          case priced =>
            rw [countP_concat_pos done hpr, ← h.priced]
          case unpriced => exact h.unpriced.trans (countP_concat_neg done hun).symm
          case unpricedSats => exact h.unpricedSats.trans (satsOf_concat_neg done hun).symm
          case unusable => exact h.unusable.trans (countP_concat_neg done hus).symm
          case unusableSats => exact h.unusableSats.trans (satsOf_concat_neg done hus).symm
          case borrowed => exact fun pubkey => (h.lend hquote hpr pubkey).entry
          case lenders => exact fun pubkey => (h.lend hquote hpr pubkey).lender

end Step

/-- **RUN**: the tally of every order completed in the window. -/
theorem tally_convert (orders : List (Order F)) (window : Window) :
    Tally A book code (completedIn orders window)
      (Converted.convert A orders window book code) := by
  have hall : ∀ order ∈ completedIn orders window, order.successAt ≠ none := by
    intro order horder hnone
    have hin := (List.mem_filter.mp horder).2
    rw [hnone] at hin
    exact nomatch hin
  rw [Converted.convert]
  generalize completedIn orders window = done at hall ⊢
  induction done using List.reverseRecOn with
  | nil => exact tally_empty A book code
  | append_singleton done order ih =>
      rw [List.foldl_append]
      have hlast : order ∈ done ++ [order] :=
        List.mem_append_right _ (List.mem_singleton.mpr rfl)
      exact tally_step (ih fun o ho => hall o (List.mem_append_left _ ho)) (hall order hlast)

end Tally

/-- A figure that is the exact sum, or withheld because that exceeds `i64::MAX`. -/
def Narrowed (sats : Option Int) (exact' : Int) : Prop :=
  (∀ total, sats = some total → total = exact') ∧ (sats = none ↔ 2 ^ 63 - 1 < exact')

theorem narrowed_satsOf {orders : List (Order F)} (h : ∀ order ∈ orders, 0 ≤ order.amountSats) :
    Narrowed (satsOf orders) (orders.map Order.amountSats).sum := by
  have hpos : ∀ n ∈ orders.map Order.amountSats, 0 ≤ n := by
    intro n hn
    obtain ⟨order, hmem, rfl⟩ := List.mem_map.mp hn
    exact h order hmem
  rw [satsOf, foldl_addSats hpos]
  exact ⟨fun total => eq_sum_of_sumSats, sumSats_eq_none_iff hpos⟩

/-- **THE CONVERSION ACCOUNTS FOR EVERY ORDER**: priced, unpriced or unusable, and the
    sats it leaves out and the sats it borrowed a price for are what those orders had. -/
structure Accounts (A : Floats F) (book : Book F) (code : String) (done : List (Order F))
    (converted : Converted F) : Prop where
  every : converted.priced + converted.unpriced + converted.unusable = done.length
  fallbacks : converted.fallbacks ≤ converted.priced
  unpriced : Narrowed converted.unpricedSats
    ((done.filter (isUnpriced book code)).map Order.amountSats).sum
  unusable : Narrowed converted.unusableSats
    ((done.filter (isUnusable A book code)).map Order.amountSats).sum
  borrowed : ∀ (pubkey : String) borrowed, converted.borrowed[pubkey]? = some borrowed →
    borrowed.orders = (done.filter (isLent A book code pubkey)).length
      ∧ Narrowed borrowed.sats
        ((done.filter (isLent A book code pubkey)).map Order.amountSats).sum

section Accounts

variable (A : Floats F) (book : Book F) (code : String)

/-- One order is lent a price by at most one instance. -/
theorem countP_lenders_le {keys : List String} (hn : keys.Nodup) (order : Order F) :
    keys.countP (fun pubkey => isLent A book code pubkey order)
      ≤ if isPriced A book code order = true then 1 else 0 := by
  cases hpr : isPriced A book code order with
  | false =>
      have hnone : ∀ pubkey ∈ keys, ¬ isLent A book code pubkey order = true := by
        intro pubkey _ hlent
        rw [isLent, hpr, Bool.false_and] at hlent
        exact nomatch hlent
      exact (List.countP_eq_zero.mpr hnone).le
  | true =>
      rw [if_pos rfl]
      by_cases hsome : ∃ pubkey, isLent A book code pubkey order = true
      · obtain ⟨lender, hlender⟩ := hsome
        have honly : ∀ pubkey ∈ keys, isLent A book code pubkey order = true →
            (pubkey == lender) = true := by
          intro pubkey _ hlent
          rw [isLent, Bool.and_eq_true] at hlent hlender
          obtain ⟨quote, hquote, hsource⟩ := (Option.any_eq_true _ _).mp hlent.2
          obtain ⟨quote', hquote', hsource'⟩ := (Option.any_eq_true _ _).mp hlender.2
          cases hquote.symm.trans hquote'
          have hsame := (eq_of_beq hsource).symm.trans (eq_of_beq hsource')
          exact beq_iff_eq.mpr (RateSource.fallback.inj hsame)
        exact (List.countP_mono_left honly).trans (List.nodup_iff_count_le_one.mp hn lender)
      · push Not at hsome
        have hnone : ∀ pubkey ∈ keys, ¬ isLent A book code pubkey order = true :=
          fun pubkey _ => hsome pubkey
        exact (List.countP_eq_zero.mpr hnone).le.trans (Nat.zero_le 1)

theorem sum_countP_cons {α κ : Type} (p : κ → α → Bool) (keys : List κ) (x : α) (rest : List α) :
    (keys.map fun k => (x :: rest).countP (p k)).sum
      = (keys.map fun k => rest.countP (p k)).sum + keys.countP fun k => p k x := by
  induction keys with
  | nil => rfl
  | cons k keys ih =>
      rw [List.map_cons, List.sum_cons, ih, List.map_cons, List.sum_cons, List.countP_cons,
        List.countP_cons]
      omega

theorem sum_lent_le {keys : List String} (hn : keys.Nodup) (done : List (Order F)) :
    (keys.map fun pubkey => done.countP (isLent A book code pubkey)).sum
      ≤ done.countP (isPriced A book code) := by
  induction done with
  | nil => simp
  | cons order rest ih =>
      have hone := countP_lenders_le A book code hn order
      rw [sum_countP_cons, List.countP_cons]
      omega

variable {A book code}

theorem Tally.accounts {done : List (Order F)} {converted : Converted F}
    (h : Tally A book code done converted) (hpos : ∀ order ∈ done, 0 ≤ order.amountSats) :
    Accounts A book code done converted := by
  have hsats : ∀ p : Order F → Bool,
      Narrowed (satsOf (done.filter p)) ((done.filter p).map Order.amountSats).sum :=
    fun p => narrowed_satsOf fun order horder => hpos order (List.mem_of_mem_filter horder)
  have hentry : ∀ (pubkey : String) borrowed, converted.borrowed[pubkey]? = some borrowed →
      borrowed = ⟨done.countP (isLent A book code pubkey),
        satsOf (done.filter (isLent A book code pubkey))⟩ := by
    intro pubkey borrowed hborrowed
    rw [← h.borrowed pubkey, hborrowed]
    rfl
  constructor
  case every =>
    -- Each order is exactly one of the three.
    rw [h.priced, h.unpriced, h.unusable]
    clear h hsats hentry hpos
    induction done with
    | nil => rfl
    | cons order rest ih =>
        rw [List.countP_cons, List.countP_cons, List.countP_cons, List.length_cons, ← ih]
        have hone : (if isPriced A book code order = true then 1 else 0)
            + (if isUnpriced book code order = true then 1 else 0)
            + (if isUnusable A book code order = true then 1 else 0) = 1 := by
          rw [isPriced, isUnpriced, isUnusable]
          cases quoteOf book code order with
          | none => rfl
          | some quote =>
              rw [Option.any_some, Option.any_some, Option.isNone_some]
              cases A.isFinite (convertSats A quote order.amountSats) with
              | true => rfl
              | false => rfl
        omega
  case fallbacks =>
    have hkeys : (converted.borrowed.toList.map fun entry => entry.2.orders)
        = converted.borrowed.keys.map fun pubkey => done.countP (isLent A book code pubkey) := by
      rw [← Std.ExtTreeMap.map_fst_toList_eq_keys, List.map_map]
      refine List.map_congr_left fun entry hmem => ?_
      have hlook := Std.ExtTreeMap.mem_toList_iff_getElem?_eq_some.mp
        (show (entry.1, entry.2) ∈ converted.borrowed.toList from hmem)
      rw [hentry entry.1 entry.2 hlook]
      rfl
    rw [Converted.fallbacks, hkeys, h.priced]
    exact sum_lent_le A book code Std.ExtTreeMap.nodup_keys done
  case unpriced =>
    rw [h.unpricedSats]
    exact hsats _
  case unusable =>
    rw [h.unusableSats]
    exact hsats _
  case borrowed =>
    intro pubkey borrowed hborrowed
    rw [hentry pubkey borrowed hborrowed]
    exact ⟨List.countP_eq_length_filter, hsats _⟩

end Accounts

/-- **EVERY ORDER AND EVERY SAT IS ACCOUNTED FOR**, near `i64::MAX` too: in the volume of
    any window, and in its conversion by any book into any currency. -/
theorem volume_conserves (A : Floats F) (orders : List (Order F)) (window : Window)
    (h : ∀ order ∈ orders, 0 ≤ order.amountSats) :
    Conserves orders window (Volume.summarise A orders window)
      ∧ ∀ book code, Accounts A book code (completedIn orders window)
        (Converted.convert A orders window book code) := by
  refine ⟨summarise_conserves A window h, fun book code => ?_⟩
  refine (tally_convert orders window).accounts fun order horder => h order ?_
  exact (List.mem_filter.mp (List.mem_filter.mp horder).1).1

/-- An order settled for so many sats. -/
def settledFor (amountSats : Int) : Order Int where
  orderId := "o"
  pubkey := "p"
  instance' := "p"
  createdAt := 1785600000
  status := .success
  direction := .sell
  fiatCode := "ARS"
  paymentMethods := []
  amountSats := amountSats
  fiatAmount := none
  premium := 0
  isMarketPrice := false
  fiatRange := none
  pendingAt := none
  origin := ⟨"ARS", [], .sell⟩
  takenAt := none
  successAt := some 1785600900
  canceledAt := none
  expiresAt := none

/-- One sat more than a number can hold: the total is withheld, the orders are not. -/
theorem one_sat_over :
    (Volume.summarise Floats.whole [settledFor 9223372036854775807, settledFor 1]
        ⟨1785600000, 1785700000⟩).sats = none
      ∧ Conserves [settledFor 9223372036854775807, settledFor 1] ⟨1785600000, 1785700000⟩
        (Volume.summarise Floats.whole [settledFor 9223372036854775807, settledFor 1]
          ⟨1785600000, 1785700000⟩) := by
  refine ⟨by decide +kernel, ?_⟩
  refine (volume_conserves Floats.whole [settledFor 9223372036854775807, settledFor 1]
    ⟨1785600000, 1785700000⟩ fun order horder => ?_).1
  simp only [List.mem_cons, List.not_mem_nil, or_false] at horder
  rcases horder with rfl | rfl
  · decide
  · decide

/-! ## Dev fees -/

/-- What the fees of a window paid. -/
def paidSats (data : DevFeeData F) (window : Window) : List Int :=
  (data.canonical window).map Fee.amountSats

/-- What the settled orders they name were worth. -/
def settledSats (data : DevFeeData F) (window : Window) : List Int :=
  (data.canonical window).filterMap Fee.settledAmountSats

/-- A settled amount that enters the ratio: the fee divides, the amount is positive. -/
def matchedAmount (A : Floats F) (devFeePct : String → F) (fee : Fee F) : Option Int :=
  if (Implied.divisor A fee (devFeePct fee.pubkey)).isSome = true then
    fee.settledAmountSats.filter fun amount => decide (amount > 0)
  else none

/-- What those of them that enter the ratio were worth. -/
def matchedSats (A : Floats F) (devFeePct : String → F) (data : DevFeeData F)
    (window : Window) : List Int :=
  (data.canonical window).filterMap (matchedAmount A devFeePct)

/-- **THE DEV-FEE SUMS ARE SUMS**: each is the exact one, or withheld, and no addition on
    the way to it left `i64`. -/
structure Exact (A : Floats F) (devFeePct : String → F) (data : DevFeeData F)
    (window : Window) : Prop where
  total : (DevFees.summarise A data window).totalSats = (paidSats data window).sum
  withFee : ∀ total,
    (Implied.summarise A data window devFeePct).withFeeVolumeSats = some total →
      total = (settledSats data window).sum
  matched : (Implied.summarise A data window devFeePct).matchedObservedSats
    = (matchedSats A devFeePct data window).sum
  additions : ∀ sats ∈ [paidSats data window, settledSats data window,
    matchedSats A devFeePct data window], Within (-2 ^ 63) (2 ^ 63) sats

/-- Wrapping at every addition is wrapping at the end. -/
theorem wrapI64_add (a b : Int) : wrapI64 (wrapI64 a + b) = wrapI64 (a + b) := by
  rw [wrapI64, wrapI64, wrapI64, BitVec.ofInt_add, BitVec.ofInt_add, BitVec.ofInt_toInt]

section Implied

variable (A : Floats F) (devFeePct : String → F)

/-- What the loop of `implied::summarise` has added up of the fees so far. -/
structure Added (fees : List (Fee F)) (implied : Implied F) : Prop where
  observed : implied.observed = wrapI64 (fees.filterMap Fee.settledAmountSats).sum
  withFee : implied.withFeeOrders = (fees.filterMap Fee.settledAmountSats).length
  matched : implied.matchedObservedSats
    = wrapI64 (fees.filterMap (matchedAmount A devFeePct)).sum

theorem filterMap_concat {α β : Type} (f : α → Option β) (xs : List α) (x : α) :
    (xs ++ [x]).filterMap f = xs.filterMap f ++ (f x).toList := by
  rw [List.filterMap_append]
  cases h : f x with
  | none => simp [h]
  | some y => simp [h]

variable {A devFeePct}

/-- **STEP**: what one fee adds. -/
theorem added_step {fees : List (Fee F)} {implied : Implied F} (h : Added A devFeePct fees implied)
    (fee : Fee F) :
    Added A devFeePct (fees ++ [fee]) (Implied.step A devFeePct implied fee) := by
  have hsettled : ∀ amount, fee.settledAmountSats = some amount →
      wrapI64 (implied.observed + amount)
          = wrapI64 ((fees ++ [fee]).filterMap Fee.settledAmountSats).sum
        ∧ implied.withFeeOrders + 1
          = ((fees ++ [fee]).filterMap Fee.settledAmountSats).length := by
    intro amount hamount
    rw [filterMap_concat, hamount, h.observed, wrapI64_add, h.withFee, List.sum_append,
      List.length_append]
    exact ⟨by simp, rfl⟩
  have hunsettled : fee.settledAmountSats = none →
      implied.observed = wrapI64 ((fees ++ [fee]).filterMap Fee.settledAmountSats).sum
        ∧ implied.withFeeOrders = ((fees ++ [fee]).filterMap Fee.settledAmountSats).length := by
    intro hnone
    rw [filterMap_concat, hnone, Option.toList_none, List.append_nil]
    exact ⟨h.observed, h.withFee⟩
  have hunmatched : matchedAmount A devFeePct fee = none → implied.matchedObservedSats
      = wrapI64 ((fees ++ [fee]).filterMap (matchedAmount A devFeePct)).sum := by
    intro hnone
    rw [filterMap_concat, hnone, Option.toList_none, List.append_nil]
    exact h.matched
  have hmatched : ∀ amount, matchedAmount A devFeePct fee = some amount →
      wrapI64 (implied.matchedObservedSats + amount)
        = wrapI64 ((fees ++ [fee]).filterMap (matchedAmount A devFeePct)).sum := by
    intro amount hamount
    rw [filterMap_concat, hamount, h.matched, wrapI64_add, List.sum_append]
    simp
  -- The source matches on the divisor first, then on the settled amount.
  rw [Implied.step]
  cases hdivisor : Implied.divisor A fee (devFeePct fee.pubkey) with
  | none =>
      have hout : matchedAmount A devFeePct fee = none := by
        rw [matchedAmount, hdivisor]
        rfl
      cases hamount : fee.settledAmountSats with
      | none =>
          obtain ⟨hobserved, horders⟩ := hunsettled hamount
          cases hforce : fee.feeInForce with
          | none => exact ⟨hobserved, horders, hunmatched hout⟩
          | some _ => exact ⟨hobserved, horders, hunmatched hout⟩
      | some amount =>
          obtain ⟨hobserved, horders⟩ := hsettled amount hamount
          cases hforce : fee.feeInForce with
          | none => exact ⟨hobserved, horders, hunmatched hout⟩
          | some _ => exact ⟨hobserved, horders, hunmatched hout⟩
  | some divisor =>
      cases hamount : fee.settledAmountSats with
      | none =>
          have hout : matchedAmount A devFeePct fee = none := by
            rw [matchedAmount, hamount]
            exact ite_self none
          obtain ⟨hobserved, horders⟩ := hunsettled hamount
          exact ⟨hobserved, horders, hunmatched hout⟩
      | some amount =>
          obtain ⟨hobserved, horders⟩ := hsettled amount hamount
          dsimp only
          by_cases hpos : amount > 0
          · have hin : matchedAmount A devFeePct fee = some amount := by
              rw [matchedAmount, hdivisor, hamount]
              exact if_pos (decide_eq_true hpos)
            rw [if_pos hpos]
            exact ⟨hobserved, horders, hmatched amount hin⟩
          · have hout : matchedAmount A devFeePct fee = none := by
              rw [matchedAmount, hdivisor, hamount]
              exact if_neg fun htrue => hpos (of_decide_eq_true htrue)
            rw [if_neg hpos]
            exact ⟨hobserved, horders, hunmatched hout⟩

/-- **RUN**: the three figures at the end, the two sums wrapped. -/
theorem added_summarise (data : DevFeeData F) (window : Window) :
    Added A devFeePct (data.canonical window) (Implied.summarise A data window devFeePct) := by
  have hfold : ∀ fees : List (Fee F), Added A devFeePct fees
      (fees.foldl (Implied.step A devFeePct)
        { volume := A.ofInt 0, error := A.ofInt 0, matchedVolume := A.ofInt 0,
          matchedError := A.ofInt 0 }) := by
    intro fees
    induction fees using List.reverseRecOn with
    | nil => exact ⟨rfl, rfl, rfl⟩
    | append_singleton fees fee ih =>
        rw [List.foldl_append]
        exact added_step ih fee
  obtain ⟨hobserved, horders, hmatched⟩ := hfold (data.canonical window)
  exact ⟨hobserved, horders, hmatched⟩

end Implied

/-- The matched amounts are some of the settled ones. -/
theorem matched_sublist (A : Floats F) (devFeePct : String → F) (data : DevFeeData F)
    (window : Window) :
    (matchedSats A devFeePct data window).Sublist (settledSats data window) := by
  rw [matchedSats, settledSats]
  generalize data.canonical window = fees
  induction fees using List.reverseRecOn with
  | nil => exact .slnil
  | append_singleton fees fee ih =>
      rw [filterMap_concat, filterMap_concat]
      refine ih.append ?_
      rw [matchedAmount]
      split
      · cases fee.settledAmountSats with
        | none => exact .slnil
        | some amount =>
            rw [Option.filter_some]
            split
            · exact .refl _
            · exact List.nil_sublist _
      · exact List.nil_sublist _

/-- **THE DEV-FEE SUMS ARE EXACT EXACTLY WHEN** what was paid and what the settled orders
    were worth each add up to no more than `i64::MAX`. -/
theorem fee_sums_exact_iff (A : Floats F) (devFeePct : String → F) (data : DevFeeData F)
    (window : Window)
    (h : ∀ fee ∈ data.fees, 0 ≤ fee.amountSats
      ∧ ∀ amount, fee.settledAmountSats = some amount → 0 ≤ amount) :
    Exact A devFeePct data window
      ↔ (paidSats data window).sum ≤ 2 ^ 63 - 1
        ∧ (settledSats data window).sum ≤ 2 ^ 63 - 1 := by
  have hfee : ∀ fee ∈ data.canonical window, fee ∈ data.fees :=
    fun fee hmem => (List.mem_filter.mp hmem).1
  have hpaid : ∀ n ∈ paidSats data window, 0 ≤ n := by
    intro n hn
    obtain ⟨fee, hmem, rfl⟩ := List.mem_map.mp hn
    exact (h fee (hfee fee hmem)).1
  have hsettled : ∀ n ∈ settledSats data window, 0 ≤ n := by
    intro n hn
    obtain ⟨fee, hmem, hamount⟩ := List.mem_filterMap.mp hn
    exact (h fee (hfee fee hmem)).2 n hamount
  -- What enters the ratio is among what was settled, so its sum is no larger.
  have hsub := matched_sublist A devFeePct data window
  have hmatched : ∀ n ∈ matchedSats A devFeePct data window, 0 ≤ n :=
    fun n hn => hsettled n (hsub.subset hn)
  have hle : (matchedSats A devFeePct data window).sum ≤ (settledSats data window).sum :=
    hsub.sum_le_sum hsettled
  constructor
  · intro hexact
    have hpaidIn := hexact.additions (paidSats data window) (by simp)
    have hsettledIn := hexact.additions (settledSats data window) (by simp)
    exact ⟨by have := (within_iff (by norm_num) hpaid).mp hpaidIn; omega,
      by have := (within_iff (by norm_num) hsettled).mp hsettledIn; omega⟩
  · rintro ⟨hpaidFits, hsettledFits⟩
    have hpaidSum : 0 ≤ (paidSats data window).sum := List.sum_nonneg hpaid
    have hsettledSum : 0 ≤ (settledSats data window).sum := List.sum_nonneg hsettled
    have hmatchedSum : 0 ≤ (matchedSats A devFeePct data window).sum := List.sum_nonneg hmatched
    have hfits : ∀ {n : Int}, 0 ≤ n → n ≤ 2 ^ 63 - 1 → wrapI64 n = n :=
      fun hpos hmax => wrapI64_of_fits (by omega) (by omega)
    obtain ⟨hobserved, -, hadded⟩ : Added A devFeePct (data.canonical window)
      (Implied.summarise A data window devFeePct) := added_summarise data window
    constructor
    case total => exact hfits hpaidSum hpaidFits
    case withFee =>
      intro total htotal
      rw [Implied.withFeeVolumeSats] at htotal
      split_ifs at htotal
      rw [← Option.some.inj htotal, hobserved]
      exact hfits hsettledSum hsettledFits
    case matched =>
      rw [hadded]
      exact hfits hmatchedSum (hle.trans hsettledFits)
    case additions =>
      intro sats hsats
      simp only [List.mem_cons, List.not_mem_nil, or_false] at hsats
      rcases hsats with rfl | rfl | rfl
      · exact (within_iff (by norm_num) hpaid).mpr (by omega)
      · exact (within_iff (by norm_num) hsettled).mpr (by omega)
      · exact (within_iff (by norm_num) hmatched).mpr (by omega)

/-- A fee of so many sats. -/
def feeOf (orderId : String) (amountSats : Int) : Fee Int where
  eventId := orderId
  orderId := orderId
  pubkey := "p"
  instance' := "p"
  createdAt := 1785600000
  amountSats := amountSats
  isDuplicate := false
  orderKnown := false
  settledAt := none
  feeInForce := none
  settledAmountSats := none

theorem ordinary_fee_exact :
    (Implied.summarise Floats.whole ⟨[feeOf "a" 600], []⟩ ⟨1785600000, 1785700000⟩
        fun _ => 1).noFeeInForce = 1
      ∧ Exact Floats.whole (fun _ => 1) ⟨[feeOf "a" 600], []⟩ ⟨1785600000, 1785700000⟩ := by
  refine ⟨by decide +kernel, ?_⟩
  refine (fee_sums_exact_iff Floats.whole (fun _ => 1) ⟨[feeOf "a" 600], []⟩
    ⟨1785600000, 1785700000⟩ fun fee hfee => ?_).mpr ⟨by decide +kernel, by decide +kernel⟩
  rw [List.mem_singleton.mp hfee]
  exact ⟨by decide, fun amount hamount => nomatch hamount⟩

/-- **A TOTAL BELOW ZERO**: two fees, the first of as many sats as an `i64` holds. -/
theorem total_wraps :
    (DevFees.summarise Floats.whole ⟨[feeOf "a" 9223372036854775807, feeOf "b" 1], []⟩
        ⟨1785600000, 1785700000⟩).totalSats = -9223372036854775808
      ∧ ¬ Exact Floats.whole (fun _ => 1)
        ⟨[feeOf "a" 9223372036854775807, feeOf "b" 1], []⟩ ⟨1785600000, 1785700000⟩ := by
  have htotal : (DevFees.summarise Floats.whole
      ⟨[feeOf "a" 9223372036854775807, feeOf "b" 1], []⟩
      ⟨1785600000, 1785700000⟩).totalSats = -9223372036854775808 := by decide +kernel
  refine ⟨htotal, fun h => ?_⟩
  have hexact := h.total
  rw [htotal] at hexact
  exact absurd hexact (by decide +kernel)

end Stats
