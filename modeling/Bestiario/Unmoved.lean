import Bestiario.Absence
import Bestiario.Restatement

/-! # A run over an archive that has not moved

    The clock is threaded through every aggregation.  Past the last event of
    the archive it decides nothing about a series, nor about the windows of the
    four reports whose figures are all about the window: the ceiling is the
    last event, what is about *now* is not plotted, and a bucket the archive
    covers has started by either clock. -/

namespace Publish

open Stats (Metric Floats Data Family dotted)

variable {F : Type} {A : Floats F} {data : Data F} {e l n n' : Int}

namespace Coverage

theorem ceiling_between (h : l < n) : (between e l).ceiling n = l :=
  min_eq_left (le_of_lt h)

theorem partitions_between (he : e ≤ l) (h : l < n) (h' : l < n') (resolution : Resolution) :
    (between e l).partitions resolution n = (between e l).partitions resolution n' := by
  have hstarted : ∀ {m : Int}, l < m → (some e).filter (fun earliest => decide (earliest ≤ m))
      = some e := by
    intro m hm
    have : e ≤ m := le_trans he (le_of_lt hm)
    simp [Option.filter, this]
  simp only [partitions, ceiling_between h, ceiling_between h']
  rw [show (between e l).earliest = some e from rfl, hstarted h, hstarted h']

end Coverage

open Publish.Coverage

theorem windowOf_between (h : l < n) (h' : l < n') (span : Window) :
    windowOf span (between e l) n = windowOf span (between e l) n' := by
  simp only [windowOf, ceiling_between h, ceiling_between h']

/-! ## A series partition -/

theorem catalogueOf_clock (family : Family) (window : Stats.Window) (n n' : Int) :
    Stats.catalogueOf A family data window n = Stats.catalogueOf A family data window n' := by
  rw [Stats.Family.catalogueOf_eq, Stats.Family.catalogueOf_eq]

/-- What is plotted is measured alike by every clock. -/
theorem measure_clock (n n' : Int) {family : Family} {span window : Stats.Window}
    {name : String} {m : Int} (h : name ∈ Stats.catalogueOf A family data span m) :
    Stats.measure A data window n name = Stats.measure A data window n' name := by
  rw [Stats.Family.catalogueOf_eq, List.mem_filter] at h
  obtain ⟨hmem, hplottable⟩ := h
  obtain ⟨figure, -, rfl⟩ := List.mem_map.mp hmem
  rw [Stats.Family.measure_eq family hplottable, Stats.Family.measure_eq family hplottable,
    family.windowed_clock n']

/-- A bucket the archive covers has started by any clock past its last event,
    so the clock leaves no cell out. -/
theorem cellOf_clock (h : l < n) (h' : l < n') {family : Family} {span slot : Stats.Window}
    {name : String} {m : Int} (hname : name ∈ Stats.catalogueOf A family data span m) :
    cellOf A data (between e l) n slot name = cellOf A data (between e l) n' slot name := by
  rw [cellOf, cellOf, measure_clock n n' hname]
  cases hcovers : (between e l).covers slot with
  | false => rfl
  | true =>
      have hslot : slot.from' ≤ l := by
        rw [Coverage.covers, Bool.and_eq_true] at hcovers
        exact of_decide_eq_true hcovers.2
      rw [decide_eq_false (by omega : ¬ slot.from' ≥ n),
        decide_eq_false (by omega : ¬ slot.from' ≥ n')]

/-- **A SERIES PARTITION DOES NOT READ A CLOCK PAST THE ARCHIVE.** -/
theorem seriesPayload_clock (h : l < n) (h' : l < n') (family : Family)
    (resolution : Resolution) (span : Stats.Window) :
    seriesPayload A family data resolution span (between e l) n
      = seriesPayload A family data resolution span (between e l) n' := by
  have hcolumn : ∀ name ∈ Stats.catalogueOf A family data span n,
      column A family data span n name = column A family data span n' name := by
    intro name hname
    rw [column, column, measure_clock n n' hname]
  have hrow : ∀ slot : Stats.Window,
      (Stats.catalogueOf A family data span n).map (cellOf A data (between e l) n slot)
        = (Stats.catalogueOf A family data span n).map (cellOf A data (between e l) n' slot) :=
    fun slot => List.map_congr_left fun _ hname => cellOf_clock h h' hname
  rw [seriesPayload, seriesPayload, ← catalogueOf_clock family span n n']
  simp only [List.map_congr_left hcolumn, hrow]

/-! ## A window document -/

/-- The reports whose figures are all about the window. -/
def aboutTheWindow : List Report := [.volume, .market, .devFees, .compare]

/-- **THE FIGURES OF THESE REPORTS DO NOT READ THE CLOCK.** -/
theorem windowMetrics_clock (n n' : Int) {report : Report} (h : report ∈ aboutTheWindow)
    (window : Stats.Window) :
    windowMetrics A report data window n = windowMetrics A report data window n' := by
  cases report with
  | volume => rfl
  | market => rfl
  | devFees => rfl
  | compare =>
      simp only [windowMetrics, Stats.compareReport, Stats.summarise, Stats.Disputes.summarise]
  | orders => simp [aboutTheWindow] at h
  | disputes => simp [aboutTheWindow] at h
  | summary => simp [aboutTheWindow] at h
  | instances => simp [aboutTheWindow] at h

theorem windowAnswer_clock (h : l < n) (h' : l < n') {report : Report}
    (hreport : report ∈ aboutTheWindow) (span : Window) :
    Snapshot.windowAnswer A data (between e l) n report span
      = Snapshot.windowAnswer A data (between e l) n' report span := by
  simp only [Snapshot.windowAnswer, windowOf_between h h', windowMetrics_clock n n' hreport]

/-! ## The whole run -/

/-- The addresses a clock past the archive does not move: every series, and the
    windows of those reports. -/
def Steady : Address → Prop
  | .series _ _ _ => True
  | .window report _ none => report ∈ aboutTheWindow
  | _ => False

variable {digest : String → String} {snapshotId snapshotId' : String}

/-- **AN UNMOVED ARCHIVE IS RECOMPUTED AS IT WAS**: a steady document of one run
    is in the other, with the same figures and the same hash. -/
theorem recomputed (he : e ≤ l) (h : l < n) (h' : l < n') {document : Document F}
    (hmem : document
      ∈ (Snapshot.compute digest A data (between e l) snapshotId n).documents)
    (hsteady : Steady document.address) :
    ∃ document' ∈ (Snapshot.compute digest A data (between e l) snapshotId' n').documents,
      document'.address = document.address ∧ document'.hash = document.hash
        ∧ document'.envelope.payload = document.envelope.payload := by
  obtain ⟨report, span, rfl⟩ | ⟨report, family, slot, hfamily, hpartitions, hcovers, rfl⟩
    | ⟨profile, -, scope, span, -, rfl⟩ := Snapshot.mem_compute.mp hmem
  · refine ⟨_, Snapshot.mem_compute.mpr (.inl ⟨report, span, rfl⟩), rfl, ?_⟩
    rw [windowAnswer_clock h h' hsteady span]
    exact ⟨rfl, rfl⟩
  · rw [partitions_between he h h'] at hpartitions
    refine ⟨_, Snapshot.mem_compute.mpr
      (.inr (.inl ⟨report, family, slot, hfamily, hpartitions, hcovers, rfl⟩)), rfl, ?_⟩
    have hpayload : Snapshot.seriesAnswer A data (between e l) n family slot
        = Snapshot.seriesAnswer A data (between e l) n' family slot :=
      seriesPayload_clock h h' family slot.resolution slot.window
    rw [Snapshot.seriesDocument, Snapshot.seriesDocument, hpayload]
    exact ⟨rfl, rfl⟩
  · exact hsteady.elim

/-- A run over an unmoved archive computes the figures of the one before, and
    sends none of them. -/
theorem unmoved_archive (digest : String → String) (A : Floats F) (data : Data F)
    (he : e ≤ l) (h : l < n) (h' : l < n') (snapshotId snapshotId' : String)
    (previous : Keyed.Table String Previous) (because because' : Because)
    (republish : Republish) :
    (∀ address, Steady address → ∀ payload hash,
      (∃ document
          ∈ (Snapshot.compute digest A data (between e l) snapshotId n).documents,
          document.address = address ∧ document.envelope.payload = payload
            ∧ document.hash = hash)
        ↔ ∃ document
          ∈ (Snapshot.compute digest A data (between e l) snapshotId' n').documents,
          document.address = address ∧ document.envelope.payload = payload
            ∧ document.hash = hash)
      ∧ ∀ document ∈ (Snapshot.compute digest A data (between e l) snapshotId' n').documents,
        Steady document.address →
          document.address.toString
            ∈ ((Snapshot.compute digest A data (between e l) snapshotId' n').restated
              ((Snapshot.compute digest A data (between e l) snapshotId n).restated previous
                because republish).state because' .no).notSent := by
  refine ⟨?_, ?_⟩
  · intro address hsteady payload hash
    constructor
    · rintro ⟨document, hmem, rfl, rfl, rfl⟩
      obtain ⟨other, hother, haddress, hhash, hpayload⟩ := recomputed he h h' hmem hsteady
      exact ⟨other, hother, haddress, hpayload, hhash⟩
    · rintro ⟨document, hmem, rfl, rfl, rfl⟩
      obtain ⟨other, hother, haddress, hhash, hpayload⟩ := recomputed he h' h hmem hsteady
      exact ⟨other, hother, haddress, hpayload, hhash⟩
  · intro document hmem hsteady
    have hcomputed : ∃ earlier
        ∈ (Snapshot.compute digest A data (between e l) snapshotId n).documents,
        earlier.address.toString = document.address.toString := by
      obtain ⟨earlier, hearlier, haddress, -⟩ := recomputed he h' h hmem hsteady
      exact ⟨earlier, hearlier, congrArg Address.toString haddress⟩
    -- Whatever document of the first run has the last word at this address, it
    -- says what this one says.
    obtain ⟨last, hlast, hsame, hrow⟩ :=
      exists_restated_state previous because republish hcomputed
    have hat : last.address = document.address := toString_injective hsame
    have hhash : last.hash = document.hash := by
      obtain ⟨again, hagain, haddress', hhash', -⟩ :
          ∃ again ∈ (Snapshot.compute digest A data (between e l) snapshotId' n').documents,
            again.address = last.address ∧ again.hash = last.hash
              ∧ again.envelope.payload = last.envelope.payload :=
        recomputed he h h' hlast (hat ▸ hsteady)
      obtain ⟨hanswer, hdigest⟩ := Snapshot.answer_of_mem hagain
      obtain ⟨hanswer', hdigest'⟩ := Snapshot.answer_of_mem hmem
      rw [haddress', hat, hanswer'] at hanswer
      rw [← hhash', hdigest, hdigest', Option.some.inj hanswer]
    exact mem_notSent.mpr ⟨document, hmem, rfl, by simp [hrow, hhash, Snapshot.placed], rfl⟩

/-- An empty archive between two instants, read twice: the second run sends no
    volume document of the whole archive. -/
theorem noData_unmoved :
    (0 : Int) ≤ 86400 ∧ (86400 : Int) < 172800 ∧ (86400 : Int) < 259200
      ∧ (Address.window .volume .all none).toString
        ∈ ((Snapshot.compute id Floats.whole noData (between 0 86400) "b" 259200).restated
          ((Snapshot.compute id Floats.whole noData (between 0 86400) "a" 172800).restated ∅
            .backfill .no).state .rebuild .no).notSent := by
  have he : (0 : Int) ≤ 86400 := by decide
  have h : (86400 : Int) < 172800 := by decide
  have h' : (86400 : Int) < 259200 := by decide
  refine ⟨he, h, h', ?_⟩
  -- The data becomes a variable, so that nothing computes the snapshots.
  generalize noData = data
  obtain ⟨document, hmem, haddress⟩ := Snapshot.exists_window id Floats.whole data
    (between 0 86400) "b" 259200 .volume .all
  have hsteady : Steady document.address := by simp [haddress, Steady, aboutTheWindow]
  rw [← haddress]
  exact (unmoved_archive id Floats.whole data he h h' "a" "b" ∅ .backfill .rebuild .no).2
    document hmem hsteady

end Publish
