import Infill.Impute.TreeFill
import Infill.Proofs.Series.Dimensions
import Infill.Proofs.Table.Lookup

/-! Failures inside a filling do not leave it. A trial that fails, a search that comes to nothing, a
final fit that fails and a gap that cannot be predicted are told by the outcome; the filling itself
succeeds wherever its targets are columns of numbers. -/

namespace Infill

variable {α : Type} [Scalar α]

open Table

def Table.NumericAt (t : Table α) (names : List String) : Prop :=
  ∀ name ∈ names, ∃ xs, t.numeric name = .ok xs

omit [Scalar α] in
theorem Table.NumericAt.update {t t' : Table α} {names : List String} (ht : t.NumericAt names)
    {name : String} {f : List (Option α) → List (Option α)} (h : t.update name f = .ok t') :
    t'.NumericAt names :=
  fun other hother => update_numeric_total h (ht other hother)

namespace GapFill

theorem fillColumn_total {columns : List String} {g : Gap} {forecast : Forecast α}
    (hf : forecast.dimensions = columns.length) {s : GapFill α} (hs : s.table.NumericAt columns)
    {column : String × Nat} (hcol : column ∈ columns.zipIdx) :
    ∃ s', fillColumn g forecast s column = .ok s' ∧ s'.table.NumericAt columns := by
  have hlt : column.2 < forecast.point.length := by
    have := List.snd_lt_of_mem_zipIdx hcol
    rw [Nat.add_zero, ← hf] at this
    exact this
  obtain ⟨cells, hcells⟩ := hs column.1 (List.fst_mem_of_mem_zipIdx hcol)
  have hseries : forecast.series column.2 = .ok forecast.point[column.2] := by
    simp [Forecast.series, hlt]
  obtain ⟨table, htable⟩ := update_total hcells
    (FilledCell.write (openCells column.1 g.first cells
      (forecast.point[column.2].take g.length)))
  simp only [fillColumn, bind_ok_iff, pure_ok_iff]
  exact ⟨_, ⟨_, hseries, cells, hcells, table, htable, rfl⟩, hs.update htable⟩

theorem predict_covers {model : Forecaster α} {count : Nat} (hm : model.Dimensioned count)
    {covariates : List (List α)} {g : Gap} {forecast : Forecast α}
    (h : g.predict model covariates = .ok forecast) : forecast.Covers count g.length := by
  unfold Gap.predict at h
  dsimp only at h
  split_ifs at h
  · exact hm.backcast _ _ _ h
  · exact hm.forecastFrom _ _ _ _ h

theorem fillRun_total {model : Forecaster α} {columns : List String}
    (hm : model.Dimensioned columns.length) (covariates : List (List α)) {s : GapFill α}
    (hs : s.table.NumericAt columns) (g : Gap) :
    ∃ s', fillRun model columns covariates s g = .ok s' ∧ s'.table.NumericAt columns := by
  unfold fillRun
  split
  · rename_i forecast hforecast
    have hdim := (predict_covers hm hforecast).dimensions
    exact foldlM_total (fun s : GapFill α => s.table.NumericAt columns)
      (fun s c hc hs => fillColumn_total hdim hs hc) hs
  · exact ⟨_, rfl, hs⟩

theorem fill_total {model : Forecaster α} {columns : List String}
    (hm : model.Dimensioned columns.length) {t : Table α} (ht : t.NumericAt columns)
    (missing : List Bool) (covariates : List (List α)) :
    ∃ s, fill model t columns missing covariates = .ok s := by
  have hstart : (⟨t, [], none⟩ : GapFill α).table.NumericAt columns := ht
  obtain ⟨s, hs, -⟩ := foldlM_total (fun s : GapFill α => s.table.NumericAt columns)
    (fun s g _ hs => fillRun_total hm covariates hs g) hstart
  exact ⟨s, hs⟩

end GapFill

namespace SeriesFill

structure Sample.Covers (s : Sample α) : Prop where
  series : s.series.length = s.targets.length
  numeric : s.table.NumericAt s.targets

theorem finish_total {family : Family α} (hf : family.Dimensioned) {s : Sample α} (hs : s.Covers)
    (split : Split) (successes : Nat) (best : Search.Best (Score.Holdout α)) :
    ∃ i, finish family s split successes best = .ok i := by
  unfold finish
  dsimp only
  split
  · exact ⟨_, rfl⟩
  · rename_i fitted hfit
    have hdim := hf _ _ _ _ hfit
    rw [Sample.endog, List.length_map, hs.series] at hdim
    obtain ⟨gaps, hgaps⟩ := GapFill.fill_total hdim hs.numeric s.missing
      (rowsOf s.covariates (List.range s.table.rowCount))
    rw [hgaps]
    exact ⟨_, rfl⟩

theorem train_total {family : Family α} (hf : family.Dimensioned) {s : Sample α} (hs : s.Covers)
    (testSize accuracySize : Nat) (settings : Settings α) :
    ∃ i, train family s testSize accuracySize settings = .ok i := by
  unfold train
  split_ifs
  · dsimp only
    split
    · exact ⟨_, rfl⟩
    · exact finish_total hf hs _ _ _
  · exact ⟨_, rfl⟩

theorem Sample.ofTable_total {t : Table α} {targets : List String}
    (h : t.NumericAt targets) (separator : Char) (measure : String) :
    ∃ s, Sample.ofTable separator t targets measure = .ok s ∧ s.Covers := by
  obtain ⟨series, hseries⟩ := mapM_total h
  refine ⟨_, by rw [Sample.ofTable, hseries]; rfl, ?_, h⟩
  exact (mapM_ok_iff.1 hseries).length_eq.symm

theorem Single.train_total {frame : Table α} {target : String} {xs : List (Option α)}
    (h : frame.numeric target = .ok xs) (testSize accuracySize : Nat) (settings : Settings α) :
    ∃ result, Single.train frame target testSize accuracySize settings = .ok result := by
  have hnumeric : frame.NumericAt [target] := by simpa [NumericAt] using ⟨xs, h⟩
  obtain ⟨s, hs, hcov⟩ := Sample.ofTable_total hnumeric settings.separator
    (SeriesName.measure settings.separator target)
  obtain ⟨i, hi⟩ := SeriesFill.train_total Single.family_dimensioned hcov testSize accuracySize
    settings
  simp only [Single.train, bind_ok_iff, pure_ok_iff]
  exact ⟨_, s, hs, i, hi, rfl⟩

theorem Joint.train_total {wide : Table α} {measure : String} {settings : Settings α}
    (hne : SeriesName.ofMeasure settings.separator wide measure ≠ [])
    (h : wide.NumericAt (SeriesName.ofMeasure settings.separator wide measure))
    (testSize accuracySize : Nat) :
    ∃ result, Joint.train wide measure testSize accuracySize settings = .ok result := by
  obtain ⟨s, hs, hcov⟩ := Sample.ofTable_total h settings.separator measure
  obtain ⟨i, hi⟩ := SeriesFill.train_total Joint.family_dimensioned hcov testSize accuracySize
    settings
  unfold Joint.train
  simp only [check_ok_iff, bind_ok_iff, pure_ok_iff]
  exact ⟨_, by simpa using hne, s, hs, i, hi, rfl⟩

end SeriesFill

namespace TreeFill

theorem finish_total (kind : TreeKind) (t : Table α) (target : String) (s : Sample α)
    (split : Split) (successes : Nat) (best : Search.Config) (settings : Settings α) :
    ∃ i, finish kind t target s split successes best settings = .ok i := by
  unfold finish
  dsimp only
  split
  · exact ⟨_, rfl⟩
  · split <;> exact ⟨_, rfl⟩

theorem train_total {t : Table α} {target : String} {xs : List (Option α)}
    (h : t.numeric target = .ok xs) (kind : TreeKind) (testSize accuracySize : Nat)
    (settings : Settings α) : ∃ i, train t target kind testSize accuracySize settings = .ok i := by
  obtain ⟨c, hc, -⟩ := numeric_ok_iff.1 h
  unfold train missingRows
  rw [h, column_ok_iff.2 hc]
  dsimp only [bind, Except.bind, pure, Except.pure]
  split
  · exact ⟨_, rfl⟩
  split
  · exact ⟨_, rfl⟩
  · exact finish_total ..

end TreeFill

end Infill
