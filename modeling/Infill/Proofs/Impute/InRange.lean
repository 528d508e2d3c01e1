import Infill.Proofs.Folds
import Infill.Proofs.Impute.Contained
import Infill.Proofs.Impute.Runs
import Infill.Proofs.Table.Spread

/-! Where a filling of series reads. The lists of a sample are read by `take`, `drop` and `getD`, which
give something for every place, so that a place that is not there would not show in the outcome. Of
a rectangular table all places are there: the rows that are read are rows of the table, windows and
histories lie within the observed rows, and no list is shorter than what is read of it. -/

namespace Infill

variable {α : Type} [Scalar α]

theorem Carry.length_dense? {cells : List (Option α)} {values : List α}
    (h : dense? cells = some values) : values.length = cells.length := by
  rw [← length_fill cells]
  unfold dense? at h
  generalize fill cells = filled at h ⊢
  induction filled generalizing values with
  | nil =>
    cases h
    rfl
  | cons cell rest ih =>
    rw [List.mapM_cons] at h
    obtain ⟨x, -, h⟩ := Option.bind_eq_some_iff.1 h
    obtain ⟨xs, hxs, h⟩ := Option.bind_eq_some_iff.1 h
    cases h
    rw [List.length_cons, List.length_cons, ih hxs]

theorem length_of_mem_covariateColumns {separator : Char} {t : Table α} (ht : t.Rectangular)
    {measure : String} {values : List α} (h : values ∈ covariateColumns separator t measure) :
    values.length = t.rowCount := by
  obtain ⟨entry, hentry, rfl⟩ := List.mem_map.1 h
  obtain ⟨c, hc, hvalues⟩ := List.mem_filterMap.1 hentry
  rw [← ht c hc]
  cases hcells : c.cells with
  | numeric xs =>
    rw [hcells] at hvalues
    dsimp only at hvalues
    split_ifs at hvalues
    obtain ⟨ys, hys, rfl⟩ := Option.map_eq_some_iff.1 hvalues
    rw [Column.length, hcells]
    exact Carry.length_dense? hys
  | categorical xs => rw [hcells] at hvalues; cases hvalues
  | datetime xs => rw [hcells] at hvalues; cases hvalues

namespace SeriesFill.Sample

omit [Scalar α] in
theorem mem_observedRows {s : Sample α} {row : Nat} :
    row ∈ s.observedRows ↔ s.missing[row]? = some false := by
  simp [observedRows, List.mk_mem_zipIdx_iff_getElem?]

omit [Scalar α] in
theorem length_observedRows (s : Sample α) : s.observedRows.length = s.missing.count false := by
  rw [observedRows, List.length_map, ← List.countP_eq_length_filter, List.count]
  conv_rhs => rw [← List.zipIdx_map_fst 0 s.missing, List.countP_map]
  refine List.countP_congr fun entry _ => ?_
  simp

/-- Every place that is read is there: a window takes as many entries as it has places, and a gap is
predicted from a part of the observed rows, given covariates of its own rows. -/
structure InRange (s : Sample α) : Prop where
  series : ∀ values ∈ s.series, values.length = s.table.rowCount
  covariates : ∀ values ∈ s.covariates, values.length = s.table.rowCount
  observed : ∀ row ∈ s.observedRows, row < s.table.rowCount
  endog : ∀ values ∈ s.endog, values.length = s.observedRows.length
  windows : ∀ testSize accuracySize, let split := Split.ofSizes s.observedRows.length testSize accuracySize
    ∀ w ∈ [split.train, split.test], w.first ≤ w.stop ∧ (w.inside s.exog).length = w.length ∧
      ∀ values ∈ s.endog, (w.inside values).length = w.length
  history : ∀ g ∈ Gap.runs s.missing, g.history ≤ s.observedRows.length
  rows : ∀ g ∈ Gap.runs s.missing, ∀ row ∈ g.rows, row < s.table.rowCount

/-- A sample of a rectangular table is read where there is something. -/
theorem ofTable_inRange {t : Table α} (ht : t.Rectangular) {separator : Char}
    {targets : List String} {measure : String} {s : Sample α}
    (h : ofTable separator t targets measure = .ok s) : s.InRange := by
  obtain ⟨series, hseries, hs⟩ := bind_ok_iff.1 h
  obtain rfl := pure_ok_iff.1 hs
  have hmissing : (missingIn t.rowCount series).length = t.rowCount := by simp [missingIn]
  set s : Sample α := ⟨t, targets, series, missingIn t.rowCount series,
    covariateColumns separator t measure⟩
  have hendog : ∀ values ∈ s.endog, values.length = s.observedRows.length := by
    refine List.forall_mem_map.2 fun values hvalues => List.filterMap_length_eq_length.2 ?_
    intro row hrow
    obtain ⟨hlt, hgone⟩ := List.getElem?_eq_some_iff.1 (mem_observedRows.1 hrow)
    have hshown : ∀ xs ∈ series, Scalar.observed xs[row]?.join ≠ none := by
      simpa [s, missingIn, List.any_eq_false] using hgone
    rw [Option.isSome_iff_ne_none]
    intro hnone
    exact hshown values hvalues (by rw [hnone]; rfl)
  have hexog : s.exog.length = s.observedRows.length := List.length_map _
  constructor
  case series =>
    intro values hvalues
    obtain ⟨name, -, hname⟩ := forall₂_mem_right (mapM_ok_iff.1 hseries) hvalues
    exact Table.rectangular_numeric ht hname
  case covariates => exact fun values => length_of_mem_covariateColumns ht
  case observed =>
    intro row hrow
    exact hmissing ▸ (List.getElem?_eq_some_iff.1 (mem_observedRows.1 hrow)).1
  case endog => exact hendog
  case windows =>
    intro testSize accuracySize split w hw
    have hwithin : w.first ≤ w.stop ∧ w.stop ≤ s.observedRows.length := by
      rcases List.mem_pair.1 hw with rfl | rfl
      · exact ⟨Nat.zero_le _, Nat.sub_le _ _⟩
      · exact ⟨Nat.sub_le _ _, le_rfl⟩
    exact ⟨hwithin.1, Window.length_inside (hexog ▸ hwithin.2), fun values hvalues =>
      Window.length_inside (hendog values hvalues ▸ hwithin.2)⟩
  case history =>
    intro g hg
    rw [length_observedRows, Gap.history_of_mem_runsFrom hg, Nat.zero_add]
    exact (List.take_sublist _ _).count_le false
  case rows =>
    intro g hg row hrow
    have hlast : g.first + g.length ≤ t.rowCount := hmissing ▸ Gap.last_le_of_mem_runs hg
    exact (List.mem_range'_1.1 hrow).2.trans_le hlast

end SeriesFill.Sample

end Infill
