import Bestiario.Absence

/-! # Weekly series

    A week is filed under the month of its Monday, and the months listed start
    with the one that holds the archive's first event.  So every week has one
    row, except the first one when its Monday lies in the month before: that
    month is not listed, and the week is in no partition. -/

namespace Publish

open Calendar Tiling Timestamp
open Stats (Floats Data Family Period)

variable {F : Type} {digest : String → String} {A : Floats F} {data : Data F}
  {coverage : Coverage} {snapshotId : String} {e now : Int}

/-- The published rows of a series, each with the window it covers. -/
def Snapshot.rows (snapshot : Snapshot F) (report : Report) (resolution : Resolution) :
    List (List Json.Value × Stats.Window) :=
  (snapshot.series report resolution).flatMap fun part =>
    part.2.rows.zip ((rowsOf resolution part.1.window).map Prod.snd)

/-- Keys and windows of all the rows of a series. -/
theorem rows_compute (h : coverage.Reads e now) {report : Report} {family : Family}
    (hfamily : familyOf report = some family) (resolution : Resolution) :
    ((Snapshot.compute digest A data coverage snapshotId now).rows report resolution).map
        (fun row => (row.1.head?, row.2))
      = (resolution.row.scale.opening
          (resolution.period.scale.start (resolution.period.scale.index e))
          (resolution.period.scale.start
            (resolution.period.scale.index (coverage.ceiling now) + 1))).map fun i =>
          (some (.str (rowAt resolution.row i).1), (rowAt resolution.row i).2) := by
  have hrows := congrArg (List.map fun slot : String × Stats.Window =>
    (some (Json.Value.str slot.1), slot.2)) (h.rows resolution)
  rw [List.map_flatMap, List.map_map] at hrows
  rw [Snapshot.rows, Snapshot.series_compute h, hfamily, Option.elim_some, List.flatMap_map,
    List.map_flatMap]
  refine Eq.trans (List.flatMap_congr fun bucket _ => ?_) hrows
  rw [seriesPayload_rows, List.zip_map', List.map_map]
  rfl

/-- Exactly one row covers the instant, and it is keyed by its ISO week. -/
def InOneWeek (rows : List (List Json.Value × Stats.Window)) (t : Int) : Prop :=
  ∃ row window, rows.filter (fun row => row.2.contains t) = [(row, window)]
    ∧ row.head? = some (.str (Period.key .week t))

theorem contains_rowAt {period : Period} {i t : Int} :
    (rowAt period i).2.contains t = (i == period.scale.index t) := by
  rw [Bool.eq_iff_iff, Stats.Window.contains_iff, beq_iff_eq]
  constructor
  · rintro ⟨hlo, hhi⟩
    exact (Scale.index_eq hlo hhi).symm
  · rintro rfl
    exact ⟨period.scale.start_index t, period.scale.lt_start t⟩

/-- An instant is in the cell of its own index and in no other. -/
theorem filter_opening {period : Period} {lo hi t : Int} :
    (period.scale.opening lo hi).filter (fun i => (rowAt period i).2.contains t)
      = if period.scale.index t ∈ period.scale.opening lo hi then [period.scale.index t]
        else [] := by
  have hfilter : (period.scale.opening lo hi).filter (fun i => (rowAt period i).2.contains t)
      = (period.scale.opening lo hi).filter (· == period.scale.index t) :=
    List.filter_congr fun i _ => contains_rowAt
  rw [hfilter, List.filter_beq]
  split
  · rename_i hmem
    rw [List.count_eq_one_of_mem (Scale.opening_nodup lo hi) hmem]
    rfl
  · rename_i hmem
    rw [List.count_eq_zero_of_not_mem hmem]
    rfl

/-- **A ROW COVERS AN INSTANT EXACTLY WHEN ITS CELL OPENS IN THE SERIES.** -/
theorem inOneWeek_iff (h : coverage.Reads e now) {report : Report} {family : Family}
    (hfamily : familyOf report = some family) {t : Int} :
    InOneWeek ((Snapshot.compute digest A data coverage snapshotId now).rows report .weekly) t
      ↔ (Period.scale .week).index t ∈ (Period.scale .week).opening
          ((Period.scale .month).start ((Period.scale .month).index e))
          ((Period.scale .month).start
            ((Period.scale .month).index (coverage.ceiling now) + 1)) := by
  have hrows : ((Snapshot.compute digest A data coverage snapshotId now).rows report .weekly).map
      (fun row => (row.1.head?, row.2)) = _ := rows_compute h hfamily .weekly
  simp only [Resolution.row, Resolution.period] at hrows
  generalize (Snapshot.compute digest A data coverage snapshotId now).rows report .weekly = rows
    at hrows ⊢
  have hkept := congrArg (List.filter fun row => row.2.contains t) hrows
  rw [List.filter_map, List.filter_map] at hkept
  change (rows.filter fun row => row.2.contains t).map _
    = (((Period.scale .week).opening _ _).filter fun i => (rowAt .week i).2.contains t).map _
    at hkept
  rw [filter_opening] at hkept
  constructor
  · rintro ⟨row, window, hone, -⟩
    by_contra hmissing
    rw [hone, if_neg hmissing] at hkept
    cases hkept
  · intro hmem
    rw [if_pos hmem] at hkept
    obtain ⟨⟨row, window⟩, hone, hrow⟩ := List.map_eq_singleton_iff.mp hkept
    refine ⟨row, window, hone, ?_⟩
    have hkey : (rowAt .week ((Period.scale .week).index t)).1 = Period.key .week t :=
      Period.key_of_index ((Period.scale .week).index_start _)
    rw [← hkey]
    exact congrArg Prod.fst hrow

/-- **WEEKLY SERIES COVER THE ARCHIVE EXACTLY WHEN THE WEEK OF ITS FIRST EVENT OPENS
    IN THE SAME MONTH.**  Otherwise that week is filed under a month that is not
    listed. -/
theorem weeks_cover_iff {l : Int} (h : (Coverage.between e l).Reads e now)
    {report : Report} {family : Family} (hfamily : familyOf report = some family)
    (digest : String → String) (A : Floats F) (data : Data F) (snapshotId : String) :
    (∀ t, e ≤ t → t ≤ min l now → InOneWeek ((Snapshot.compute digest A data (.between e l)
        snapshotId now).rows report .weekly) t)
      ↔ (DateTime.ofUnix (mondayOf e)).date.monthIndex
          = (DateTime.ofUnix e).date.monthIndex := by
  have hceiling : (Coverage.between e l).ceiling now = min l now := rfl
  have hmonday : (Period.scale .week).start ((Period.scale .week).index e) ≤ e :=
    (Period.scale .week).start_index e
  -- The Monday is not past the event, so neither is its month.
  have hmonth : (DateTime.ofUnix (mondayOf e)).date.monthIndex
        = (DateTime.ofUnix e).date.monthIndex
      ↔ (Period.scale .month).start ((Period.scale .month).index e) ≤ mondayOf e := by
    have hmono : (Period.scale .month).index (mondayOf e) ≤ (Period.scale .month).index e :=
      Scale.index_mono (mondayOf_eq e ▸ hmonday)
    rw [Scale.start_le_iff]
    exact ⟨fun heq => le_of_eq heq.symm, fun hle => le_antisymm hmono hle⟩
  rw [hmonth, mondayOf_eq]
  constructor
  · intro hall
    have hfirst := (inOneWeek_iff h hfamily).mp (hall e (le_refl e) (hceiling ▸ h.le_ceiling))
    exact (Scale.mem_opening.mp hfirst).1
  · intro hopen t hlo hhi
    refine (inOneWeek_iff h hfamily).mpr (Scale.mem_opening.mpr ⟨?_, ?_⟩)
    · have hmono : (Period.scale .week).index e ≤ (Period.scale .week).index t :=
        Scale.index_mono hlo
      exact le_trans hopen ((Period.scale .week).start_strictMono.monotone hmono)
    · have hlast : (Period.scale .month).index t
          ≤ (Period.scale .month).index ((Coverage.between e l).ceiling now) :=
        Scale.index_mono (hceiling ▸ hhi)
      calc (Period.scale .week).start ((Period.scale .week).index t)
          ≤ t := (Period.scale .week).start_index t
        _ < (Period.scale .month).start ((Period.scale .month).index t + 1) :=
            (Period.scale .month).lt_start t
        _ ≤ _ := (Period.scale .month).start_strictMono.monotone (by omega)

/-- From a Tuesday on, two weeks are all there. -/
theorem tuesday_reads : (Coverage.between 1770076800 1770681600).Reads 1770076800 1772323200 where
  earliest := rfl
  latest l hl := by
    cases hl
    decide
  started := by decide
  floor := by decide
  clock := by decide

theorem tuesday_weeks_cover :
    (DateTime.ofUnix (mondayOf 1770076800)).date.monthIndex
        = (DateTime.ofUnix 1770076800).date.monthIndex
      ∧ ∀ t, 1770076800 ≤ t → t ≤ min 1770681600 1772323200 →
        InOneWeek ((Snapshot.compute id .whole noData (.between 1770076800 1770681600) "1"
          1772323200).rows .orders .weekly) t :=
  ⟨by decide +kernel,
    (weeks_cover_iff tuesday_reads (show familyOf .orders = some .activity from rfl) id .whole
      noData "1").mpr (by decide +kernel)⟩

/-- A first event on Sunday the first: its week opened in January. -/
theorem sunday_in_no_week :
    ¬ ∀ t, 1769904000 ≤ t → t ≤ min 1770076800 1772323200 →
      InOneWeek ((Snapshot.compute id .whole noData threeDays "1" 1772323200).rows .orders
        .weekly) t := by
  intro hall
  have hin := (inOneWeek_iff threeDays_reads
    (show familyOf .orders = some .activity from rfl)).mp (hall 1769904000 (by decide) (by decide))
  revert hin
  decide +kernel

end Publish
