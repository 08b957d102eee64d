import Bestiario.Convergence
import Bestiario.Load

/-! # The windowed load

    `lifecycle_in` reads the orders a timing report needs: those with a version
    in the window, and the current book.  Every duration, the book and the funnel
    are the same over them as over the whole history, since each is dated by a
    version.  Two figures are not: an order can be dated inside the window by its
    creation tag and have every version after it, and the orders with both a
    success and a cancellation are counted wherever they lie. -/

namespace Load

open Keyed Wire Repo Derived Rebuild
open Stats (Order Window Timing Floats percentileInt p50 p90)
open Stats.Timing (summarise gaps checkedSub bookAge terminal cohort Funnel)

variable {F : Type} {X : Externals F} {db : Db F}

/-! ## A list some elements are dropped from -/

section Dropped

variable {α β : Type}

/-- What is left of a list marked with what to keep. -/
def kept (marked : List (Bool × α)) : List α := (marked.filter Prod.fst).map Prod.snd

theorem filterMap_kept {marked : List (Bool × α)} {f : α → Option β}
    (h : ∀ m ∈ marked, m.1 = false → f m.2 = none) :
    (kept marked).filterMap f = (marked.map Prod.snd).filterMap f := by
  induction marked with
  | nil => rfl
  | cons m rest ih =>
      have hrest := ih fun m' hm' => h m' (List.mem_cons_of_mem m hm')
      obtain ⟨mark, x⟩ := m
      cases mark with
      | true =>
          show (x :: kept rest).filterMap f = (x :: rest.map Prod.snd).filterMap f
          rw [List.filterMap_cons, List.filterMap_cons, hrest]
      | false =>
          show (kept rest).filterMap f = (x :: rest.map Prod.snd).filterMap f
          rw [List.filterMap_cons, h (false, x) List.mem_cons_self rfl, hrest]

/-- A count is the same over what is left exactly when nothing dropped counts. -/
theorem countP_kept_iff {marked : List (Bool × α)} {p : α → Bool} :
    (kept marked).countP p = (marked.map Prod.snd).countP p
      ↔ ∀ m ∈ marked, m.1 = false → p m.2 = false := by
  have hle : ∀ marked : List (Bool × α),
      (kept marked).countP p ≤ (marked.map Prod.snd).countP p := fun marked =>
    (List.filter_sublist.map Prod.snd).countP_le
  induction marked with
  | nil => exact iff_of_true rfl fun m hm => nomatch hm
  | cons m rest ih =>
      have hrest := hle rest
      obtain ⟨mark, x⟩ := m
      cases mark with
      | true =>
          have hsame : (kept ((true, x) :: rest)).countP p
              = (((true, x) :: rest).map Prod.snd).countP p
                ↔ (kept rest).countP p = (rest.map Prod.snd).countP p := by
            show (x :: kept rest).countP p = (x :: rest.map Prod.snd).countP p ↔ _
            rw [List.countP_cons, List.countP_cons, Nat.add_right_cancel_iff]
          refine hsame.trans (ih.trans ?_)
          rw [List.forall_mem_cons]
          exact ⟨fun h => ⟨(fun hmark => nomatch hmark), h⟩, fun h => h.2⟩
      | false =>
          have hsame : (kept ((false, x) :: rest)).countP p
              = (((false, x) :: rest).map Prod.snd).countP p
                ↔ p x = false ∧ (kept rest).countP p = (rest.map Prod.snd).countP p := by
            show (kept rest).countP p = (x :: rest.map Prod.snd).countP p ↔ _
            rw [List.countP_cons]
            cases p x with
            | true =>
                rw [if_pos rfl]
                exact iff_of_false (by omega) (fun h => nomatch h.1)
            | false =>
                rw [if_neg Bool.false_ne_true]
                exact ⟨fun h => ⟨rfl, h⟩, fun h => h.2⟩
          refine hsame.trans ((and_congr_right' ih).trans ?_)
          rw [List.forall_mem_cons]
          exact and_congr_left' ⟨fun h _ => h, fun h => h rfl⟩

end Dropped

/-! ## What an untouched order adds -/

/-- Nothing of the order is in the window, and it is not on the book. -/
structure Untouched (window : Window) (now : Int) (order : Order F) : Prop where
  pending : order.pendingAt.any window.contains = false
  taken : order.takenAt.any window.contains = false
  success : order.successAt.any window.contains = false
  canceled : order.canceledAt.any window.contains = false
  book : bookAge order now = none

/-- The gap of one order. -/
def gap (window : Window) (start stop : Order F → Option Int) (order : Order F) : Option Int :=
  ((start order).bind fun a => ((stop order).filter window.contains).bind fun b =>
    checkedSub b a).filter fun length => decide (length > 0)

/-- The gaps are taken order by order. -/
theorem gaps_eq (orders : List (Order F)) (window : Window)
    (start stop : Order F → Option Int) :
    gaps orders window start stop = orders.filterMap (gap window start stop) := by
  have hgap : ∀ order : Order F, gap window start stop order
      = (((start order).bind fun a => (stop order).map fun b => (a, b)).filter
          fun gap => window.contains gap.2).bind fun gap =>
            (checkedSub gap.2 gap.1).filter fun length => decide (length > 0) := by
    intro order
    rw [gap]
    cases start order with
    | none => rfl
    | some a =>
        cases stop order with
        | none => rfl
        | some b =>
            cases hin : window.contains b with
            | true => simp [Option.filter, hin]
            | false => simp [Option.filter, hin]
  rw [gaps, List.filter_filterMap, List.filterMap_filterMap]
  exact (List.filterMap_congr fun order _ => hgap order).symm

theorem gap_eq_none {window : Window} {start stop : Order F → Option Int} {order : Order F}
    (h : (stop order).any window.contains = false) : gap window start stop order = none := by
  have hout : (stop order).filter window.contains = none := by
    cases hstop : stop order with
    | none => rfl
    | some b =>
        rw [hstop] at h
        refine Option.filter_eq_none_iff.mpr fun x hx => ?_
        cases hx
        exact (Bool.not_eq_true _).mpr h
  rw [gap, hout]
  cases start order <;> rfl

/-- An end out of the window is not counted, whichever of the two it is. -/
theorem ends_out {window : Window} {now : Int} {order : Order F} (h : Untouched window now order) :
    (Stats.Timing.success order).any window.contains = false
      ∧ (Stats.Timing.canceled order).any window.contains = false := by
  have hsuccess := h.success
  have hcanceled := h.canceled
  rw [Stats.Timing.success, Stats.Timing.canceled, terminal]
  cases hs : order.successAt with
  | none =>
      cases hc : order.canceledAt with
      | none => exact ⟨rfl, rfl⟩
      | some canceled =>
          rw [hc] at hcanceled
          exact ⟨rfl, hcanceled⟩
  | some success =>
      rw [hs] at hsuccess
      cases hc : order.canceledAt with
      | none => exact ⟨hsuccess, rfl⟩
      | some canceled =>
          rw [hc] at hcanceled
          dsimp only
          by_cases hlt : canceled < success
          · rw [if_pos hlt]
            exact ⟨rfl, hcanceled⟩
          · rw [if_neg hlt]
            exact ⟨hsuccess, rfl⟩

/-- Counted as of unknown origin. -/
def unknown (window : Window) (order : Order F) : Bool :=
  order.pendingAt.isNone && window.contains order.createdAt

/-- Counted as regressed. -/
def regressed (order : Order F) : Bool := order.successAt.isSome && order.canceledAt.isSome

/-- **WHAT DROPPING UNTOUCHED ORDERS CHANGES**: the two counts that are not dated by
    a version, and nothing else. -/
theorem summarise_kept_iff (A : Floats F) {marked : List (Bool × Order F)} {window : Window}
    {now : Int} (h : ∀ m ∈ marked, m.1 = false → Untouched window now m.2) :
    summarise A (kept marked) window now = summarise A (marked.map Prod.snd) window now
      ↔ ∀ m ∈ marked, m.1 = false → unknown window m.2 = false ∧ regressed m.2 = false := by
  have hgaps : ∀ start stop : Order F → Option Int,
      (∀ order, Untouched window now order → (stop order).any window.contains = false) →
        gaps (kept marked) window start stop = gaps (marked.map Prod.snd) window start stop := by
    intro start stop hstop
    rw [gaps_eq, gaps_eq]
    exact filterMap_kept fun m hm hmark => gap_eq_none (hstop m.2 (h m hm hmark))
  have hbook : (kept marked).filterMap (fun order => bookAge order now)
      = (marked.map Prod.snd).filterMap fun order => bookAge order now :=
    filterMap_kept fun m hm hmark => (h m hm hmark).book
  have hfunnel : Funnel.over (kept marked) window now
      = Funnel.over (marked.map Prod.snd) window now := by
    have hcohort : (kept marked).filter (cohort window)
        = (marked.map Prod.snd).filter (cohort window) := by
      rw [← List.filterMap_eq_filter]
      refine filterMap_kept fun m hm hmark => ?_
      rw [Option.guard, cohort, (h m hm hmark).pending]
      rfl
    rw [Funnel.over, hcohort, Funnel.over]
  have hcounts : summarise A (kept marked) window now
        = summarise A (marked.map Prod.snd) window now
      ↔ (kept marked).countP (unknown window) = (marked.map Prod.snd).countP (unknown window)
        ∧ (kept marked).countP regressed = (marked.map Prod.snd).countP regressed := by
    constructor
    · exact fun heq => ⟨congrArg Timing.unknownOrigin heq, congrArg Timing.regressed heq⟩
    · rintro ⟨hunknown, hregressed⟩
      have hfills := hgaps Order.pendingAt Order.takenAt fun _ hu => hu.taken
      have hcompletes := hgaps Order.takenAt Stats.Timing.success fun _ hu => (ends_out hu).1
      have hcycles := hgaps Order.pendingAt Stats.Timing.success fun _ hu => (ends_out hu).1
      have hcancels := hgaps Order.pendingAt Stats.Timing.canceled fun _ hu => (ends_out hu).2
      unfold unknown at hunknown
      unfold regressed at hregressed
      simp only [summarise, hfills, hcompletes, hcycles, hcancels, hbook, hfunnel, hunknown,
        hregressed]
  rw [hcounts, countP_kept_iff, countP_kept_iff]
  exact ⟨fun hboth m hm hmark => ⟨hboth.1 m hm hmark, hboth.2 m hm hmark⟩,
    fun hall => ⟨fun m hm hmark => (hall m hm hmark).1, fun m hm hmark => (hall m hm hmark).2⟩⟩

/-! ## Narrowing a read -/

/-- A narrower reading, read off the wider one. -/
theorem mapM_filter {ε α β : Type} {f : α → Except ε β} (q : α → Bool) {xs : List α}
    {ys : List β} (h : xs.mapM f = .ok ys) :
    ∃ marked : List (Bool × β), marked.map Prod.snd = ys
      ∧ (xs.filter q).mapM f = .ok (kept marked)
      ∧ (∀ m ∈ marked, ∃ x ∈ xs, f x = .ok m.2 ∧ q x = m.1)
      ∧ ∀ x ∈ xs, ∃ m ∈ marked, f x = .ok m.2 ∧ q x = m.1 := by
  have hread := mapM_eq_ok_iff.mp h
  clear h
  induction hread with
  | nil => exact ⟨[], rfl, rfl, (fun m hm => nomatch hm), (fun x hx => nomatch hx)⟩
  | @cons x y xs ys hxy _ ih =>
      obtain ⟨marked, hys, hkept, hfrom, hto⟩ := ih
      refine ⟨(q x, y) :: marked, congrArg (y :: ·) hys, ?_, ?_, ?_⟩
      · rw [List.filter_cons]
        cases hq : q x with
        | true => exact mapM_eq_ok_iff.mpr (.cons hxy (mapM_eq_ok_iff.mp hkept))
        | false => exact hkept
      · intro m hm
        rcases List.mem_cons.mp hm with rfl | hmem
        · exact ⟨x, List.mem_cons_self, hxy, rfl⟩
        · obtain ⟨x', hx', hm'⟩ := hfrom m hmem
          exact ⟨x', List.mem_cons_of_mem _ hx', hm'⟩
      · intro x' hx'
        rcases List.mem_cons.mp hx' with rfl | hmem
        · exact ⟨_, List.mem_cons_self, hxy, rfl⟩
        · obtain ⟨m, hm, hread⟩ := hto x' hmem
          exact ⟨m, List.mem_cons_of_mem _ hm, hread⟩

/-! ## The two loads -/

/-- A date that a version of the order carries, when no version is in the window. -/
theorem whenStatus_out {orderId status : String} {from' until' : Int}
    (h : rows db.orderVersions (fun version => mine orderId version
      && decide (version.createdAt ≥ from') && decide (version.createdAt < until')) = []) :
    (minimum (Orders.whenStatus status) db.orderVersions (mine orderId)).any
      (Window.mk from' until').contains = false := by
  cases hmin : minimum (Orders.whenStatus status) db.orderVersions (mine orderId) with
  | none => rfl
  | some t =>
      obtain ⟨⟨k, version, hk, hmine, hdate⟩, -⟩ := minimum_eq_some_iff.mp hmin
      have hout := rows_eq_nil_iff.mp h k version hk
      rw [hmine, Bool.true_and] at hout
      rw [Orders.whenStatus] at hdate
      split_ifs at hdate
      cases hdate
      exact hout

/-- **AN ORDER THE WINDOW LEAVES OUT IS UNTOUCHED**: no version of it is in the
    window, and it is not on the book. -/
theorem untouched_of_not_keeps {row : OrderRow F} {order : Order F} (hread : Reads db row order)
    {window : Window} {now : Int}
    (hout : (Filter.touchedIn window.from' window.until' now).keeps db row = false) :
    Untouched window now order := by
  rw [Filter.keeps, Bool.or_eq_false_iff, Bool.not_eq_false', List.isEmpty_iff] at hout
  obtain ⟨hversions, hlive⟩ := hout
  refine {
    pending := hread.pending ▸ whenStatus_out hversions
    taken := hread.taken ▸ whenStatus_out hversions
    success := hread.success ▸ whenStatus_out hversions
    canceled := hread.canceled ▸ whenStatus_out hversions
    book := ?_ }
  by_contra hsome
  obtain ⟨htaken, hend, expires, hexpires, hlater⟩ :=
    Stats.Timing.onBook (Option.isSome_iff_ne_none.mpr hsome)
  obtain ⟨hsuccess, hcanceled⟩ := Stats.Timing.terminal_eq_none hend
  -- Every version of the order is a pending one, the latest among them.
  have hnever : ∀ {status : String} (k : String) (v : Parse.OrderVersion F),
      minimum (Orders.whenStatus status) db.orderVersions (mine row.orderId) = none →
        db.orderVersions[k]? = some (Orders.rowOf v) → v.orderId = row.orderId →
          v.status.asStr ≠ status := by
    intro status k v hmin hk hmine heq
    have hnone := minimum_eq_none_iff.mp hmin k _ hk (beq_iff_eq.mpr hmine)
    rw [Orders.whenStatus, if_pos (show (Orders.rowOf v).status = status from heq)] at hnone
    cases hnone
  obtain ⟨k, v, hv, hmine, hstatus⟩ := hread.latest
  have hpending : row.finalStatus = "pending" := by
    rw [hstatus]
    cases hs : v.status with
    | pending => rfl
    | inProgress =>
        exact absurd (by rw [hs]; rfl) (hnever k v (hread.taken.symm.trans htaken) hv hmine)
    | success =>
        exact absurd (by rw [hs]; rfl) (hnever k v (hread.success.symm.trans hsuccess) hv hmine)
    | canceled =>
        exact absurd (by rw [hs]; rfl) (hnever k v (hread.canceled.symm.trans hcanceled) hv hmine)
  rw [hpending, ← hread.expires, hexpires] at hlive
  exact absurd hlater (by simpa using hlive)

/-- The first version of an order in a status. -/
def firstAt (status : String) (db : Db F) (row : OrderRow F) : Option Int :=
  minimum (Orders.whenStatus status) db.orderVersions (mine row.orderId)

/-- An order the windowed load leaves out though a figure counts it: it has no
    `pending` version and is dated inside the window, or it has both ends. -/
def Missed (db : Db F) (window : Window) (now : Int) (row : OrderRow F) : Prop :=
  (Filter.touchedIn window.from' window.until' now).keeps db row = false
    ∧ (firstAt "pending" db row = none ∧ window.contains (createdAt row) = true
      ∨ firstAt "success" db row ≠ none ∧ firstAt "canceled" db row ≠ none)

theorem missed_iff {window : Window} {now : Int} {row : OrderRow F} {order : Order F}
    (h : Reads db row order) :
    Missed db window now row
      ↔ (Filter.touchedIn window.from' window.until' now).keeps db row = false
        ∧ ¬(unknown window order = false ∧ regressed order = false) := by
  have hpending : firstAt "pending" db row = order.pendingAt := h.pending.symm
  have hsuccess : firstAt "success" db row = order.successAt := h.success.symm
  have hcanceled : firstAt "canceled" db row = order.canceledAt := h.canceled.symm
  rw [Missed, hpending, hsuccess, hcanceled, ← h.created]
  refine and_congr_right fun _ => ?_
  have hunknown : unknown window order = true
      ↔ order.pendingAt = none ∧ window.contains order.createdAt = true := by
    rw [unknown, Bool.and_eq_true, Option.isNone_iff_eq_none]
  have hregressed : regressed order = true
      ↔ order.successAt ≠ none ∧ order.canceledAt ≠ none := by
    rw [regressed, Bool.and_eq_true, Option.isSome_iff_ne_none, Option.isSome_iff_ne_none]
  rw [← hunknown, ← hregressed, not_and_or, Bool.not_eq_false, Bool.not_eq_false]

/-- **THE WINDOWED LOAD ANSWERS LIKE THE WHOLE HISTORY** exactly when no order in
    scope is missed. -/
theorem lifecycleIn_faithful_iff (A : Floats F) (h : Reachable X db) (scope : Scope)
    (window : Window) (now : Int) :
    ∃ loaded all, lifecycleIn scope window.from' window.until' now db = .ok loaded
      ∧ orders scope db = .ok all
      ∧ (summarise A loaded window now = summarise A all window now
        ↔ ∀ (k : String) row, db.orders[k]? = some row →
            scope.applies row.pubkey row.network = true → ¬ Missed db window now row) := by
  have hset := h.settled
  let filter := Filter.touchedIn window.from' window.until' now
  let inScope := fun row : OrderRow F => scope.applies row.pubkey row.network
  let listed := rowsBy (ascAsc createdAt OrderRow.orderId) db.orders inScope
  have hlisted : ∀ row, row ∈ listed ↔
      (∃ k : String, db.orders[k]? = some row) ∧ inScope row = true := fun row => mem_rowsBy
  obtain ⟨all, hall⟩ : ∃ all, listed.mapM (orderOf db) = .ok all := by
    refine exists_mapM fun row hrow => ?_
    obtain ⟨⟨k, hk⟩, -⟩ := (hlisted row).mp hrow
    obtain ⟨order, hread⟩ := exists_reads hset hk
    exact ⟨order, hread.loaded⟩
  obtain ⟨marked, rfl, hkept, hfrom, hto⟩ := mapM_filter (filter.keeps db) hall
  have hwhole : orders scope db = .ok (marked.map Prod.snd) := by
    rw [← hall, orders, fetch]
    simp only [Filter.keeps, Bool.and_true]
    rfl
  have hwindow : lifecycleIn scope window.from' window.until' now db = .ok (kept marked) := by
    rw [← hkept, lifecycleIn, fetch, rowsBy_and]
  refine ⟨kept marked, marked.map Prod.snd, hwindow, hwhole, ?_⟩
  have huntouched : ∀ m ∈ marked, m.1 = false → Untouched window now m.2 := by
    intro m hm hmark
    obtain ⟨row, hrow, hload, hkeeps⟩ := hfrom m hm
    obtain ⟨⟨k, hk⟩, -⟩ := (hlisted row).mp hrow
    exact untouched_of_not_keeps (reads_of_orderOf hset hk hload) (hkeeps.trans hmark)
  rw [summarise_kept_iff A huntouched]
  constructor
  · intro hnone k row hk hscope hmissed
    obtain ⟨m, hm, hload, hkeeps⟩ := hto row ((hlisted row).mpr ⟨⟨k, hk⟩, hscope⟩)
    obtain ⟨hout, hcounted⟩ := (missed_iff (reads_of_orderOf hset hk hload)).mp hmissed
    exact hcounted (hnone m hm (hkeeps.symm.trans hout))
  · intro hnone m hm hmark
    obtain ⟨row, hrow, hload, hkeeps⟩ := hfrom m hm
    obtain ⟨⟨k, hk⟩, hscope⟩ := (hlisted row).mp hrow
    by_contra hcounted
    exact hnone k row hk hscope
      ((missed_iff (reads_of_orderOf hset hk hload)).mpr ⟨hkeeps.trans hmark, hcounted⟩)

/-! ## An order dated by its tag -/

/-- An order first seen at its success, an hour after the tag says it was created. -/
def taggedOrder : Event :=
  { Convergence.orderEvent
      "5000000000000000000000000000000000000000000000000000000000000001"
      Convergence.alice 1785603600 "success" with
    tags := [["d", "9b2f3c1e-5d0a-4e7b-8c11-2f6a90d1c001"], ["k", "sell"], ["s", "success"],
      ["f", "USD"], ["amt", "100000"], ["fa", "60"], ["pm", "cash"], ["premium", "0"],
      ["network", "mainnet"], ["expires_at", "1785700000"], ["y", "mostro"],
      ["published_at", "1785600000"], ["z", "order"]] }

def tagged : Externals Int := Externals.over [taggedOrder] (by decide) []

/-- The database once the order has been read. -/
def tradedOnce : Db Int :=
  (Pipeline.ingest tagged Convergence.openPolicy ⟨taggedOrder, "wss://a", 1785603601⟩ Db.empty).2

theorem reachable_tradedOnce : Reachable tagged tradedOnce :=
  .ingest Convergence.openPolicy ⟨taggedOrder, "wss://a", 1785603601⟩ .empty

/-- Every instance, every network. -/
def everything : Scope := ⟨none, []⟩

/-- Over the hour it succeeded in, the two loads answer alike. -/
theorem lifecycleIn_faithful_success :
    ∃ loaded all, lifecycleIn everything 1785603000 1785607000 1785610000 tradedOnce = .ok loaded
      ∧ orders everything tradedOnce = .ok all
      ∧ (summarise Floats.whole loaded ⟨1785603000, 1785607000⟩ 1785610000
          = summarise Floats.whole all ⟨1785603000, 1785607000⟩ 1785610000
        ↔ ∀ (k : String) row, tradedOnce.orders[k]? = some row →
            everything.applies row.pubkey row.network = true →
              ¬ Missed tradedOnce ⟨1785603000, 1785607000⟩ 1785610000 row) :=
  lifecycleIn_faithful_iff Floats.whole reachable_tradedOnce everything
    ⟨1785603000, 1785607000⟩ 1785610000

/-- **AN ORDER OF UNKNOWN ORIGIN IS NOT COUNTED**: its tag dates it inside the window,
    its one version an hour later. -/
theorem unknown_origin_missed :
    Reachable tagged tradedOnce
      ∧ ((orders everything tradedOnce).map fun all =>
        (summarise Floats.whole all ⟨1785599000, 1785601000⟩ 1785610000).unknownOrigin) = .ok 1
      ∧ ((lifecycleIn everything 1785599000 1785601000 1785610000 tradedOnce).map fun loaded =>
        (summarise Floats.whole loaded ⟨1785599000, 1785601000⟩ 1785610000).unknownOrigin)
          = .ok 0 :=
  ⟨reachable_tradedOnce, by decide +kernel, by decide +kernel⟩

end Load
