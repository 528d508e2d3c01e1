import Infill.Proofs.Run.Parts
import Infill.Proofs.Table.Filling
import Infill.Proofs.Table.SeriesName

/-! How many records a time-aware family makes. A family that works series by series makes one for
every series of the target with a missing cell, in the order of the columns; the joint family makes
one for all of them. -/

namespace Infill

variable {α : Type} [Scalar α]

namespace Run

def hasGap (t : Table α) (name : String) : Bool :=
  match t.column? name with
  | some c => (List.range c.length).any c.cells.isMissing
  | none => false

theorem hasGap_iff {t : Table α} {name : String} {missing : Nat}
    (h : t.missingCount name = .ok missing) : hasGap t name = true ↔ missing ≠ 0 := by
  obtain ⟨c, hc, h⟩ := bind_ok_iff.1 h
  obtain rfl := pure_ok_iff.1 h
  rw [ne_eq, Cells.missingCount_eq_zero_iff, hasGap, Table.column_ok_iff.1 hc]
  simp [Column.length]

/-- The series of the target that have something to fill, in the order of the columns. -/
def openSeries (r : Request α) (wide : Table α) : List String :=
  (SeriesName.ofMeasure r.settings.separator wide r.target).filter (hasGap wide)

def recordOf (m : MetricsRecord α) : Family × Option String := (m.model, some m.component)

theorem fillSeries_records {r : Request α} {model : Family} {wide : Table α} {date : String}
    {w : Windows} {progress progress' : Progress α} {series : String}
    (h : fillSeries r model wide date w progress series = .ok progress') :
    progress'.1.map recordOf = progress.1.map recordOf ++
      if hasGap wide series then [(model, SeriesName.slice? r.settings.separator series)]
      else [] := by
  obtain ⟨missing, hmissing, h⟩ := fillSeries_ok_iff.1 h
  simp only [hasGap_iff hmissing]
  split at h
  · rename_i hzero
    simp [h, hzero]
  · rename_i hne
    obtain ⟨frame, hframe, i, exog, -, table, -, rfl⟩ := h
    obtain ⟨-, slice, hslice, -⟩ := SeriesName.sliceFrame_ok_iff.1 hframe
    simp [hne, recordOf, seriesRecord, record, hslice]

theorem perSeries_records {r : Request α} {model : Family} {wide : Table α} {date : String}
    {w : Windows} {progress : Progress α} (h : perSeries r model wide date w = .ok progress) :
    progress.1.map recordOf = (openSeries r wide).map fun series =>
      (model, SeriesName.slice? r.settings.separator series) := by
  have run : ∀ (names : List String) (p p' : Progress α),
      names.foldlM (fillSeries r model wide date w) p = .ok p' →
      p'.1.map recordOf = p.1.map recordOf ++ (names.filter (hasGap wide)).map fun series =>
        (model, SeriesName.slice? r.settings.separator series) := by
    intro names
    induction names with
    | nil =>
      intro p p' h
      rw [List.foldlM_nil, pure_ok_iff] at h
      simp [h]
    | cons series names ih =>
      intro p p' h
      obtain ⟨m, hm, h⟩ := foldlM_cons_ok_iff.1 h
      rw [ih m p' h, fillSeries_records hm, List.filter_cons]
      split_ifs <;> simp
  simpa [openSeries] using run _ _ _ h

theorem jointly_records {r : Request α} {wide : Table α} {w : Windows} {progress : Progress α}
    (h : jointly r wide w = .ok progress) :
    progress.1.map recordOf = [(.multivariate, some SeriesName.whole)] := by
  simp only [jointly, bind_ok_iff, pure_ok_iff] at h
  obtain ⟨_, -, _, -, rfl⟩ := h
  rfl

end Run

end Infill
