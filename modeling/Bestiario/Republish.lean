import Bestiario.Restatement
import Bestiario.Absence

/-! # Republishing a range

    `Republish::Range` sends a series partition again when its PERIOD meets the
    range.  The rows of a partition are something else: days and months never
    leave the period, but a week is filed whole under the month of its Monday,
    and the last one of a month can run into the next.

    So a range that begins in such a week, after the month has ended, does not
    name the partition the week is in. -/

namespace Publish

open Keyed Calendar Tiling Timestamp
open Stats (Floats Data Family Period)

variable {F : Type} {digest : String → String} {A : Floats F} {data : Data F}
  {coverage : Coverage} {snapshotId : String} {now : Int} {previous : Table String Previous}
  {because : Because}

/-- Two windows share an instant. -/
def Meets (w asked : Stats.Window) : Prop := w.from' < asked.until' ∧ asked.from' < w.until'

instance (w asked : Stats.Window) : Decidable (Meets w asked) :=
  inferInstanceAs (Decidable (_ ∧ _))

/-- Nothing a range republication holds back has a row in the range. -/
def Snapshot.RangeRestored (snapshot : Snapshot F) (previous : Table String Previous)
    (because : Because) (asked : Stats.Window) : Prop :=
  ∀ report slot scope, (Address.series report slot scope).toString
      ∈ (snapshot.restated previous because (.range asked)).notSent →
    ∀ row ∈ rowsOf slot.resolution slot.window, ¬ Meets row.2 asked

/-- The range begins past the month, in a week that opened in it. -/
def Spills (month asked : Stats.Window) : Prop :=
  month.until' ≤ asked.from' ∧ month.contains (mondayOf asked.from') = true

instance (month asked : Stats.Window) : Decidable (Spills month asked) :=
  inferInstanceAs (Decidable (_ ∧ _))

/-! ## Where the rows of a partition lie -/

/-- Days do not leave their month, nor months their year. -/
theorem spanAt_whole {resolution : Resolution} (hweekly : resolution ≠ .weekly) (i : Int) :
    ∃ b, (spanAt resolution i).until' = resolution.row.scale.start b := by
  cases resolution with
  | daily => exact ⟨monthStart (i + 1), rfl⟩
  | weekly => exact absurd rfl hweekly
  | monthly => exact ⟨12 * (i + 1), rfl⟩

/-- The rows of a partition are the cells that open in its span. -/
theorem mem_rowsOf {slot : Partition} {row : String × Stats.Window} :
    row ∈ rowsOf slot.resolution slot.window
      ↔ ∃ i, slot.window.from' ≤ slot.resolution.row.scale.start i
          ∧ slot.resolution.row.scale.start i < slot.window.until'
          ∧ rowAt slot.resolution.row i = row := by
  obtain ⟨hspan, hlo, hhi⟩ := Bucket.span slot.fits
  have hwindow : slot.window = spanAt slot.resolution slot.bucket.index := hspan
  rw [hwindow, rowsOf_eq slot.resolution hlo hhi, List.mem_map]
  simp only [Scale.mem_opening, and_assoc]

/-- A whole number of cells ends a span that is not of weeks, so no row leaves it. -/
theorem rowsOf_within {slot : Partition} (hweekly : slot.resolution ≠ .weekly) :
    ∀ row ∈ rowsOf slot.resolution slot.window,
      slot.window.from' ≤ row.2.from' ∧ row.2.until' ≤ slot.window.until' := by
  intro row hrow
  obtain ⟨i, hlo, hhi, rfl⟩ := mem_rowsOf.mp hrow
  obtain ⟨b, hb⟩ := spanAt_whole hweekly slot.bucket.index
  have hwindow : slot.window = spanAt slot.resolution slot.bucket.index :=
    (Bucket.span slot.fits).1
  rw [← hwindow] at hb
  have hlt : i < b := slot.resolution.row.scale.start_strictMono.lt_iff_lt.mp (hb ▸ hhi)
  have hend : slot.resolution.row.scale.start (i + 1) ≤ slot.window.until' :=
    hb ▸ slot.resolution.row.scale.start_strictMono.monotone hlt
  exact ⟨hlo, hend⟩

/-- **A ROW MEETS A RANGE ITS PARTITION DOES NOT** only where a week spills. -/
theorem spills_of_meets {slot : Partition} {asked : Stats.Window}
    {row : String × Stats.Window} (hrow : row ∈ rowsOf slot.resolution slot.window)
    (hmeets : Meets row.2 asked) (hapart : ¬ Meets slot.window asked) :
    slot.resolution = .weekly ∧ Spills slot.window asked := by
  obtain ⟨i, hlo, hhi, rfl⟩ := mem_rowsOf.mp hrow
  obtain ⟨hbefore, hafter⟩ := hmeets
  change slot.resolution.row.scale.start i < asked.until' at hbefore
  change asked.from' < slot.resolution.row.scale.start (i + 1) at hafter
  have hpast : slot.window.until' ≤ asked.from' := by
    by_contra hin
    exact hapart ⟨lt_of_le_of_lt hlo hbefore, not_le.mp hin⟩
  by_cases hweekly : slot.resolution = .weekly
  · refine ⟨hweekly, hpast, ?_⟩
    rw [hweekly] at hlo hhi hafter
    change slot.window.from' ≤ (Period.scale .week).start i at hlo
    change (Period.scale .week).start i < slot.window.until' at hhi
    have hindex : (Period.scale .week).index asked.from' = i :=
      Scale.index_eq (le_trans (le_of_lt hhi) hpast) hafter
    rw [mondayOf_eq, hindex, Stats.Window.contains_iff]
    exact ⟨hlo, hhi⟩
  · have hend : slot.resolution.row.scale.start (i + 1) ≤ slot.window.until' :=
      (rowsOf_within hweekly _ hrow).2
    omega

/-- Where a week spills, it is the row that meets the range. -/
theorem meets_of_spills {slot : Partition} {asked : Stats.Window}
    (hasked : asked.from' < asked.until') (hweekly : slot.resolution = .weekly)
    (hspills : Spills slot.window asked) :
    (∃ row ∈ rowsOf slot.resolution slot.window, Meets row.2 asked)
      ∧ ¬ Meets slot.window asked := by
  obtain ⟨hpast, hmonday⟩ := hspills
  rw [Stats.Window.contains_iff, mondayOf_eq] at hmonday
  obtain ⟨hlo, hhi⟩ := hmonday
  refine ⟨⟨rowAt .week ((Period.scale .week).index asked.from'), ?_, ?_, ?_⟩, ?_⟩
  · refine mem_rowsOf.mpr ⟨(Period.scale .week).index asked.from', ?_⟩
    rw [hweekly]
    exact ⟨hlo, hhi, rfl⟩
  · have hopen := (Period.scale .week).start_index asked.from'
    show (Period.scale .week).start ((Period.scale .week).index asked.from') < asked.until'
    omega
  · exact (Period.scale .week).lt_start asked.from'
  · rintro ⟨-, hin⟩
    exact absurd hin (not_lt.mpr hpast)

/-! ## The result -/

/-- A range is held against the period of a partition, and against nothing else. -/
theorem sendsUnchanged_range {document : Document F} {asked : Stats.Window}
    (h : document ∈ (Snapshot.compute digest A data coverage snapshotId now).documents) :
    (Republish.range asked).sendsUnchanged document = true
      ↔ ∃ report slot scope, document.address = .series report slot scope
          ∧ Meets slot.window asked := by
  have hperiod := Snapshot.period_of_mem h
  rw [Republish.sendsUnchanged, hperiod]
  cases haddress : document.address with
  | index => simp
  | window report span scope => simp
  | series report slot scope => simp [Meets]

/-- What is made of a document is sent again exactly when its own partition meets the
    range. -/
theorem placed_sendsUnchanged {previous : Table String Previous} {because : Because}
    {document : Document F} {asked : Stats.Window}
    (h : document ∈ (Snapshot.compute digest A data coverage snapshotId now).documents) :
    (Republish.range asked).sendsUnchanged
        ((Snapshot.compute digest A data coverage snapshotId now).placed previous because
          document).1 = true
      ↔ ∃ report slot scope, document.address = .series report slot scope
        ∧ Meets slot.window asked := by
  rw [← sendsUnchanged_range h, Republish.sendsUnchanged, Republish.sendsUnchanged,
    Snapshot.placed, against_address, against_kept.2.2.1]

/-- A range that is restored leaves no week behind it: the week it begins in would be
    held back. -/
theorem not_spills_of_restored {previous : Table String Previous} {because : Because}
    {asked : Stats.Window} (hasked : asked.from' < asked.until')
    (hrestored : (Snapshot.compute digest A data coverage snapshotId now).RangeRestored previous
      because asked) {document : Document F}
    (hmem : document ∈ (Snapshot.compute digest A data coverage snapshotId now).documents)
    {report : Report} {slot : Partition} {scope : Option Scope}
    (haddress : document.address = .series report slot scope)
    (hweekly : slot.resolution = .weekly)
    (hsame : previous[document.address.toString]?.map Previous.hash = some document.hash) :
    ¬ Spills slot.window asked := by
  intro hspills
  obtain ⟨⟨row, hrow, hmeets⟩, hapart⟩ := meets_of_spills hasked hweekly hspills
  refine hrestored report slot scope ?_ row hrow hmeets
  rw [← haddress]
  refine mem_notSent.mpr ⟨document, hmem, rfl, hsame, ?_⟩
  rw [← Bool.not_eq_true, placed_sendsUnchanged hmem]
  rintro ⟨report', slot', scope', heq, hmeet⟩
  rw [haddress] at heq
  cases heq
  exact hapart hmeet

/-- **A RANGE IS RESTORED EXACTLY WHEN NO WEEK OF IT IS FILED BEHIND IT.**  Of every
    snapshot and every history, what is held back has no row in the range iff no
    unchanged weekly partition is of a month that ended before the range began and
    in which the week the range begins in opened. -/
theorem range_restored_iff (digest : String → String) (A : Floats F) (data : Data F)
    (coverage : Coverage) (snapshotId : String) (now : Int) (previous : Table String Previous)
    (because : Because) (asked : Stats.Window) (hasked : asked.from' < asked.until') :
    (Snapshot.compute digest A data coverage snapshotId now).RangeRestored previous because
        asked
      ↔ ∀ document ∈ (Snapshot.compute digest A data coverage snapshotId now).documents,
          ∀ report slot scope, document.address = .series report slot scope →
            slot.resolution = .weekly →
            previous[document.address.toString]?.map Previous.hash = some document.hash →
            ¬ Spills slot.window asked := by
  constructor
  · intro hrestored document hmem report slot scope haddress hweekly hsame
    exact not_spills_of_restored hasked hrestored hmem haddress hweekly hsame
  · intro hcondition report slot scope hheld row hrow hmeets
    obtain ⟨document, hmem, htext, hsame, hsends⟩ := mem_notSent.mp hheld
    have haddress : document.address = .series report slot scope := toString_injective htext
    have hapart : ¬ Meets slot.window asked := by
      intro hmeet
      rw [(placed_sendsUnchanged hmem).mpr ⟨report, slot, scope, haddress, hmeet⟩] at hsends
      cases hsends
    obtain ⟨hweekly, hspills⟩ := spills_of_meets hrow hmeets hapart
    exact hcondition document hmem report slot scope haddress hweekly hsame hspills

/-! ## The first two days of August -/

/-- From a Monday of July to a Sunday of August. -/
def julyOn : Coverage := .between 1784505600 1785628800

theorem spelled_2026 : (0 : Int) ≤ 2026 ∧ (2026 : Int) ≤ 9999 := by decide

/-- The weekly partition of July. -/
def july : Partition := ⟨.weekly, .month ⟨2026, spelled_2026⟩ ⟨7, by decide⟩, rfl⟩

/-- What a run over the archive leaves behind. -/
def julyPublished : Table String Previous :=
  ((Snapshot.compute id .whole noData julyOn "1" 1788220800).restated ∅ .backfill .no).state

/-- A range that begins on a Monday leaves no week behind it. -/
theorem monday_restored :
    (Snapshot.compute id .whole noData julyOn "2" 1788307200).RangeRestored julyPublished
      .backfill ⟨1785715200, 1785801600⟩ := by
  refine (range_restored_iff id .whole noData julyOn "2" 1788307200 julyPublished .backfill
    ⟨1785715200, 1785801600⟩ (by decide)).mpr ?_
  rintro - - - slot - - - - ⟨hpast, hmonday⟩
  obtain ⟨-, hhi⟩ := Stats.Window.contains_iff.mp hmonday
  have hself : mondayOf 1785715200 = 1785715200 := by decide
  rw [hself] at hhi
  exact absurd hpast (not_le.mpr hhi)

/-- **THE FIRST DAYS OF AUGUST ARE NOT SENT AGAIN**: they are in the week of July
    the 27th, which is in the partition of July, and July ended before the range. -/
theorem august_not_restored :
    (1785542400 : Int) < 1785628800 ∧ ∃ previous,
      ¬ (Snapshot.compute id .whole noData julyOn "2" 1788307200).RangeRestored previous
        .backfill ⟨1785542400, 1785628800⟩ := by
  have hasked : (1785542400 : Int) < 1785628800 := by decide
  have hlisted : july.bucket ∈ julyOn.partitions july.resolution 1788307200 := by
    decide +kernel
  have hcovers : julyOn.covers july.window = true := by decide +kernel
  have hspills : Spills july.window ⟨1785542400, 1785628800⟩ := by decide +kernel
  generalize noData = data
  let document := Snapshot.seriesDocument id .whole data julyOn ⟨"2", 1788307200⟩ .orders
    .activity july
  have hmem : document ∈ (Snapshot.compute id .whole data julyOn "2" 1788307200).documents :=
    Snapshot.mem_compute.mpr (.inr (.inl ⟨.orders, .activity, july, rfl, hlisted, hcovers, rfl⟩))
  let previous : Table String Previous :=
    (∅ : Table String Previous).insert document.address.toString (.first document.hash 0)
  refine ⟨hasked, previous, fun hrestored => ?_⟩
  have hsame : previous[document.address.toString]?.map Previous.hash = some document.hash := by
    rw [Std.ExtTreeMap.getElem?_insert_self]
    rfl
  exact not_spills_of_restored hasked hrestored hmem rfl rfl hsame hspills

end Publish
