import Infill.Proofs.Impute.Asked
import Infill.Proofs.Impute.Overlay
import Infill.Proofs.Scalar.Exact

/-! Filled gaps line up with what was asked. The model is asked once for each block of missing rows, in
ascending order, and for the steps of just that block; every step of an answer lands in its own row, in
the column of its series, where that cell is missing. A block without an answer stays as it is, and so
does everything else in the table. -/

namespace Infill

variable {α : Type} [Scalar α]

open Table

namespace GapFill

variable {model : Forecaster α} {columns : List String} {covariates : List (List α)}

section Steps

variable {g : Gap} {forecast : Forecast α} {s : GapFill α}

/-- What a run does to a cell in its column. -/
def answerCell (model : Forecaster α) (covariates : List (List α)) (g : Gap) (j row : Nat)
    (cell : Option α) : Option α :=
  match model.answer (g.question covariates) with
  | .ok forecast => overlayCell g.first (forecast.point.getD j []) row cell
  | .error _ => cell

def answerCells (model : Forecaster α) (covariates : List (List α)) (gaps : List Gap) (j row : Nat)
    (cell : Option α) : Option α :=
  gaps.foldl (fun cell g => answerCell model covariates g j row cell) cell

omit [Scalar α] in
theorem point_of_answer (hm : model.Shaped columns.length)
    (h : model.answer (g.question covariates) = .ok forecast) :
    forecast.point.length = columns.length ∧
      ∀ values ∈ forecast.point, values.length = g.length := by
  rw [← Gap.horizon_question covariates g]
  exact hm _ _ h

theorem fillRun_redraws (hm : model.Shaped columns.length) (hdistinct : columns.Nodup)
    (covariates : List (List α)) (g : Gap) (ht : s.table.NumericAt columns) :
    ∃ s', fillRun model columns covariates s g = .ok s' ∧
      s'.unfilled = s.unfilled.or (reasonOf model covariates g) ∧
      s.table.Redrawn columns (answerCell model covariates g) s'.table := by
  rw [fillRun, reasonOf, Gap.predict_eq_answer]
  cases hanswer : model.answer (g.question covariates) with
  | ok forecast =>
    have hplaces : ∀ column ∈ columns.zipIdx, columns[column.2]? = some column.1 :=
      fun column hmem => List.mem_zipIdx_iff_getElem?.1 hmem
    have honce : (columns.zipIdx.map (·.2)).Nodup := by
      rw [List.zipIdx_map_snd]
      exact List.nodup_range'
    obtain ⟨hpoint, hsteps⟩ := point_of_answer hm hanswer
    obtain ⟨s', hs', hreason, hdrawn⟩ :=
      fillColumns_redraws hdistinct hpoint hsteps hplaces honce ht
    refine ⟨s', hs', by rw [hreason, Option.or_none], hdrawn.congr fun j hj => ?_⟩
    funext row cell
    rw [answerCell, hanswer, if_pos (by rw [List.zipIdx_map_snd]; simpa using hj)]
  | error e =>
    refine ⟨_, rfl, rfl, (Redrawn.refl columns s.table).congr fun j _ => ?_⟩
    funext row cell
    rw [answerCell, hanswer]

/-- Run after run; of the reasons why runs are left open the first one counts. -/
theorem fillRuns_redraws (hm : model.Shaped columns.length) (hdistinct : columns.Nodup)
    (covariates : List (List α)) (gaps : List Gap) (ht : s.table.NumericAt columns) :
    ∃ s', gaps.foldlM (fillRun model columns covariates) s = .ok s' ∧
      s'.unfilled = s.unfilled.or (gaps.findSome? (reasonOf model covariates)) ∧
      s.table.Redrawn columns (answerCells model covariates gaps) s'.table := by
  induction gaps generalizing s with
  | nil => exact ⟨s, rfl, by simp, .refl columns s.table⟩
  | cons g gaps ih =>
    obtain ⟨m, hstep, hreason, hdrawn⟩ := fillRun_redraws hm hdistinct covariates g ht
    obtain ⟨s', hs', hreason', hrest⟩ := ih (hdrawn.numericAt ht)
    refine ⟨s', foldlM_cons_ok_iff.2 ⟨m, hstep, hs'⟩, ?_, hdrawn.trans hrest⟩
    rw [hreason', hreason, Option.or_assoc, findSome?_cons_or]

end Steps

section Cells

variable {gaps : List Gap} {j row : Nat}

theorem answerCell_of_not_mem (hm : model.Shaped columns.length) {g : Gap} (hrow : row ∉ g.rows)
    (cell : Option α) : answerCell model covariates g j row cell = cell := by
  rw [answerCell]
  cases hanswer : model.answer (g.question covariates) with
  | error e => rfl
  | ok forecast =>
    refine overlayCell_of_not_mem ?_ hrow cell
    obtain ⟨-, hsteps⟩ := point_of_answer hm hanswer
    rw [List.getD_eq_getElem?_getD]
    cases hpoint : forecast.point[j]? with
    | none => exact Nat.zero_le _
    | some values => exact Nat.le_of_eq (hsteps values (List.mem_of_getElem? hpoint))

theorem answerCells_of_forall_not_mem (hm : model.Shaped columns.length)
    (hrow : ∀ g ∈ gaps, row ∉ g.rows) (cell : Option α) :
    answerCells model covariates gaps j row cell = cell := by
  induction gaps with
  | nil => rfl
  | cons g gaps ih =>
    obtain ⟨hg, hgaps⟩ := List.forall_mem_cons.1 hrow
    rw [answerCells, List.foldl_cons, answerCell_of_not_mem hm hg]
    exact ih hgaps

/-- Of runs that share no row at most one has a say in a cell. -/
theorem answerCells_of_mem (hm : model.Shaped columns.length)
    (hdisjoint : gaps.Pairwise fun g g' => ∀ i ∈ g.rows, i ∉ g'.rows) {g : Gap} (hg : g ∈ gaps)
    (hrow : row ∈ g.rows) (cell : Option α) :
    answerCells model covariates gaps j row cell = answerCell model covariates g j row cell := by
  induction gaps generalizing cell with
  | nil => cases hg
  | cons g' gaps ih =>
    rw [List.pairwise_cons] at hdisjoint
    rw [answerCells, List.foldl_cons]
    rcases List.mem_cons.1 hg with rfl | hg
    · exact answerCells_of_forall_not_mem hm (fun g' hg' => hdisjoint.1 g' hg' row hrow) _
    · have hother : row ∉ g'.rows := fun hrow' => hdisjoint.1 g hg row hrow' hrow
      rw [answerCell_of_not_mem hm hother]
      exact ih hdisjoint.2 hg cell

variable {missing : List Bool} {xs : List (Option α)}

theorem getElem?_answerCells_of_not_missing (hm : model.Shaped columns.length)
    (hrow : missing[row]? ≠ some true) :
    (xs.mapIdx (answerCells model covariates (Gap.runs missing) j))[row]? = xs[row]? := by
  rw [List.getElem?_mapIdx]
  cases xs[row]? with
  | none => rfl
  | some cell =>
    refine congrArg some (answerCells_of_forall_not_mem hm (fun g hg hmem => hrow ?_) cell)
    exact Gap.mem_runs_rows.1 ⟨g, hg, hmem⟩

theorem getElem?_answerCells_of_mem (hm : model.Shaped columns.length) {g : Gap}
    (hg : g ∈ Gap.runs missing) (hrow : row ∈ g.rows) :
    (xs.mapIdx (answerCells model covariates (Gap.runs missing) j))[row]? =
      xs[row]?.map (answerCell model covariates g j row) := by
  rw [List.getElem?_mapIdx]
  cases xs[row]? with
  | none => rfl
  | some cell =>
    refine congrArg some (answerCells_of_mem hm ((Gap.runs_ascending missing).imp ?_) hg hrow cell)
    exact fun {g g'} hlt i hi hi' => Nat.lt_irrefl i (hlt i hi i hi')

end Cells

structure AlignedColumn (model : Forecaster α) (missing : List Bool) (covariates : List (List α))
    (j : Nat) (xs ys : List (Option α)) : Prop where
  length : ys.length = xs.length
  observed : ∀ row : Nat, missing[row]? ≠ some true → ys[row]? = xs[row]?
  answered : ∀ first next, Gap.IsBlock missing first next → ∀ forecast,
    model.answer (.ofBlock missing covariates first next) = .ok forecast →
      ∃ series, forecast.point[j]? = some series ∧ series.length = next - first ∧
        ∀ i, i < next - first → ys[first + i]? =
          if (Cells.numeric xs).isMissing (first + i) then some series[i]? else xs[first + i]?
  unanswered : ∀ first next, Gap.IsBlock missing first next → ∀ e,
    model.answer (.ofBlock missing covariates first next) = .error e →
      ∀ row : Nat, first ≤ row → row < next → ys[row]? = xs[row]?

/-- A table after the answers have been written to it, and the reason why some of it may be open. -/
structure Aligned (model : Forecaster α) (t : Table α) (columns : List String)
    (missing : List Bool) (covariates : List (List α)) (s : GapFill α) : Prop where
  rowCount : s.table.rowCount = t.rowCount
  names : s.table.names = t.names
  elsewhere : ∀ k, (∀ name ∈ columns, t.names.idxOf name ≠ k) →
    s.table.columns[k]? = t.columns[k]?
  columns : ∀ j name xs, columns[j]? = some name → t.numeric name = .ok xs →
    ∃ ys, s.table.numeric name = .ok ys ∧ AlignedColumn model missing covariates j xs ys
  complete : s.unfilled = none ↔ ∀ first next, Gap.IsBlock missing first next →
    ∃ forecast, model.answer (.ofBlock missing covariates first next) = .ok forecast
  unfilled : ∀ reason, s.unfilled = some reason → ∃ first next e,
    Gap.IsBlock missing first next ∧
    model.answer (.ofBlock missing covariates first next) = .error e ∧
    reason = .gapNotFilled first e.message ∧
    ∀ first' next', Gap.IsBlock missing first' next' → first' < first →
      ∃ forecast, model.answer (.ofBlock missing covariates first' next') = .ok forecast

theorem alignedColumn {missing : List Bool} {j : Nat} {xs : List (Option α)}
    (hm : model.Shaped columns.length) (hmask : missing.length = covariates.length)
    (hj : j < columns.length) (hlength : xs.length = missing.length) :
    AlignedColumn model missing covariates j xs
      (xs.mapIdx (answerCells model covariates (Gap.runs missing) j)) where
  length := List.length_mapIdx
  observed row hrow := getElem?_answerCells_of_not_missing hm hrow
  answered first next hblock forecast hanswer := by
    obtain ⟨g, hg, rfl, rfl⟩ := Gap.exists_run_of_isBlock hblock
    rw [← Gap.question_eq hmask hg] at hanswer
    obtain ⟨hpoint, hsteps⟩ := point_of_answer hm hanswer
    have hlt : j < forecast.point.length := hpoint ▸ hj
    have hseries := hsteps _ (List.getElem_mem hlt)
    have hlast := Gap.last_le_of_mem_runs hg
    refine ⟨forecast.point[j], List.getElem?_eq_getElem hlt, by omega, fun i hi => ?_⟩
    have hcell : answerCell model covariates g j (g.first + i) =
        overlayCell g.first forecast.point[j] (g.first + i) := by
      funext cell
      rw [answerCell, hanswer]
      simp [hlt]
    rw [getElem?_answerCells_of_mem hm hg (Gap.mem_rows.2 (by omega)), hcell]
    exact map_overlayCell (by omega) (by omega)
  unanswered first next hblock e hanswer row hfirst hnext := by
    obtain ⟨g, hg, rfl, rfl⟩ := Gap.exists_run_of_isBlock hblock
    rw [← Gap.question_eq hmask hg] at hanswer
    have hcell : answerCell model covariates g j row = id := by
      funext cell
      rw [answerCell, hanswer, id]
    rw [getElem?_answerCells_of_mem hm hg (Gap.mem_rows.2 ⟨hfirst, hnext⟩), hcell, Option.map_id,
      id]

section Reasons

omit [Scalar α]

variable {missing : List Bool}

theorem reasonOf_eq_none_iff {g : Gap} : reasonOf model covariates g = none ↔
    ∃ forecast, model.answer (g.question covariates) = .ok forecast := by
  rw [reasonOf, Gap.predict_eq_answer]
  cases model.answer (g.question covariates) <;> simp

theorem reasonOf_eq_some_iff {g : Gap} {reason : Error} :
    reasonOf model covariates g = some reason ↔
      ∃ e, model.answer (g.question covariates) = .error e ∧
        reason = .gapNotFilled g.first e.message := by
  rw [reasonOf, Gap.predict_eq_answer]
  cases model.answer (g.question covariates) <;> simp [eq_comm]

/-- The reasons of the runs, read as reasons of the blocks. -/
theorem findSome?_reasonOf_eq_none_iff (hmask : missing.length = covariates.length) :
    (Gap.runs missing).findSome? (reasonOf model covariates) = none ↔
      ∀ first next, Gap.IsBlock missing first next →
        ∃ forecast, model.answer (.ofBlock missing covariates first next) = .ok forecast := by
  rw [List.findSome?_eq_none_iff]
  constructor
  · intro h first next hblock
    obtain ⟨g, hg, rfl, rfl⟩ := Gap.exists_run_of_isBlock hblock
    rw [← Gap.question_eq hmask hg]
    exact reasonOf_eq_none_iff.1 (h g hg)
  · intro h g hg
    rw [reasonOf_eq_none_iff, Gap.question_eq hmask hg]
    exact h _ _ (Gap.isBlock_of_mem_runs hg)

theorem of_findSome?_reasonOf_eq_some (hmask : missing.length = covariates.length) {reason : Error}
    (h : (Gap.runs missing).findSome? (reasonOf model covariates) = some reason) :
    ∃ first next e, Gap.IsBlock missing first next ∧
      model.answer (.ofBlock missing covariates first next) = .error e ∧
      reason = .gapNotFilled first e.message ∧
      ∀ first' next', Gap.IsBlock missing first' next' → first' < first →
        ∃ forecast, model.answer (.ofBlock missing covariates first' next') = .ok forecast := by
  obtain ⟨before, g, after, hruns, hreason, hbefore⟩ := List.findSome?_eq_some_iff.1 h
  have hg : g ∈ Gap.runs missing := by simp [hruns]
  obtain ⟨e, hanswer, hreason⟩ := reasonOf_eq_some_iff.1 hreason
  rw [Gap.question_eq hmask hg] at hanswer
  refine ⟨_, _, e, Gap.isBlock_of_mem_runs hg, hanswer, hreason, fun first' next' hblock hlt => ?_⟩
  obtain ⟨g', hg', rfl, rfl⟩ := Gap.exists_run_of_isBlock hblock
  have hearlier : g' ∈ before := by
    have hseparated := Gap.runs_separated missing
    rw [hruns] at hg' hseparated
    refine (List.mem_append.1 hg').resolve_right fun hlater => ?_
    rcases List.mem_cons.1 hlater with rfl | hlater
    · exact Nat.lt_irrefl _ hlt
    · have := (List.pairwise_cons.1 (List.pairwise_append.1 hseparated).2.1).1 g' hlater
      omega
  rw [← Gap.question_eq hmask hg']
  exact reasonOf_eq_none_iff.1 (hbefore g' hearlier)

end Reasons

/-- Every block of missing rows is asked about once, in ascending order, and a block is backcast just
where it starts the table. What is answered is written to the missing cells of the rows that it was
asked for, each series to its column and each step to its row; nothing else is written, and the first
block that has no answer is told. -/
theorem fill_aligned {t : Table α} {missing : List Bool} (hm : model.Shaped columns.length)
    (ht : t.Rectangular) (hdistinct : columns.Nodup) (hnumeric : t.NumericAt columns)
    (hmissing : missing.length = t.rowCount) (hcovariates : covariates.length = t.rowCount) :
    ∃ (blocks : List (Nat × Nat)) (s : GapFill α),
      blocks.Pairwise (fun b b' => b.2 < b'.1) ∧
      (∀ first next, (first, next) ∈ blocks ↔ Gap.IsBlock missing first next) ∧
      (∀ first next, Gap.IsBlock missing first next →
        ((missing.take first).count false = 0 ↔ first = 0)) ∧
      fill model t columns missing covariates = .ok s ∧
      (fillAsking model t columns missing covariates).run [] =
        (.ok s, blocks.map fun b => .ofBlock missing covariates b.1 b.2) ∧
      Aligned model t columns missing covariates s := by
  have hmask := hmissing.trans hcovariates.symm
  obtain ⟨s, hs, hreason, hredrawn⟩ := fillRuns_redraws (s := ⟨t, [], none⟩) hm hdistinct covariates
    (Gap.runs missing) hnumeric
  rw [Option.none_or] at hreason
  refine ⟨(Gap.runs missing).map fun g => (g.first, g.first + g.length), s, ?_, ?_,
    fun first next hblock => hblock.count_eq_zero_iff, hs, ?_, ?_⟩
  · exact List.pairwise_map.2 (Gap.runs_separated missing)
  · intro first next
    simp only [List.mem_map, Prod.mk.injEq]
    constructor
    · rintro ⟨g, hg, rfl, rfl⟩
      exact Gap.isBlock_of_mem_runs hg
    · exact Gap.exists_run_of_isBlock
  · rw [fillAsking, foldlM_fillRunAsking hs, List.nil_append, List.map_map]
    exact congrArg _ (List.map_congr_left fun g hg => Gap.question_eq hmask hg)
  · exact {
      rowCount := hredrawn.rowCount
      names := hredrawn.names
      elsewhere := hredrawn.elsewhere
      columns := fun j name xs hj hx => ⟨_, hredrawn.numeric j name xs hj hx,
        alignedColumn hm hmask (List.getElem?_eq_some_iff.1 hj).1
          ((rectangular_numeric ht hx).trans hmissing.symm)⟩
      complete := hreason ▸ findSome?_reasonOf_eq_none_iff hmask
      unfilled := fun reason h => of_findSome?_reasonOf_eq_some hmask (hreason.symm.trans h) }

open Exact (number nan)

def steady : Forecaster (Exact ℚ) where
  forecastFrom _ horizon _ :=
    .ok ⟨[List.replicate horizon (number 1), List.replicate horizon (number 2)]⟩
  backcast _ _ := .error .emptyData

def fiveRows : Table (Exact ℚ) :=
  ⟨[⟨"a", .numeric [none, some (number 4), some nan, none, some (number 6)]⟩,
    ⟨"day", .categorical [none, none, none, none, none]⟩,
    ⟨"b", .numeric [none, some (number 7), some (number 8), none, some (number 9)]⟩], 5⟩

def fiveMissing : List Bool := [true, false, true, true, false]

/-- The series stand in another order than the columns, the first block cannot be predicted, and in
the second one a cell is there. -/
theorem fiveRows_aligned :
    (steady.Shaped 2 ∧ fiveRows.Rectangular ∧ ["b", "a"].Nodup ∧ fiveRows.NumericAt ["b", "a"] ∧
      fiveMissing.length = 5 ∧ [[], [], [], [], ([] : List (Exact ℚ))].length = 5) ∧
    ∃ (blocks : List (Nat × Nat)) (s : GapFill (Exact ℚ)),
      blocks.Pairwise (fun b b' => b.2 < b'.1) ∧
      (∀ first next, (first, next) ∈ blocks ↔ Gap.IsBlock fiveMissing first next) ∧
      (∀ first next, Gap.IsBlock fiveMissing first next →
        ((fiveMissing.take first).count false = 0 ↔ first = 0)) ∧
      fill steady fiveRows ["b", "a"] fiveMissing [[], [], [], [], []] = .ok s ∧
      (fillAsking steady fiveRows ["b", "a"] fiveMissing [[], [], [], [], []]).run [] =
        (.ok s, blocks.map fun b => .ofBlock fiveMissing [[], [], [], [], []] b.1 b.2) ∧
      Aligned steady fiveRows ["b", "a"] fiveMissing [[], [], [], [], []] s := by
  have hm : steady.Shaped 2 := by
    rintro (⟨history, horizon, covariates⟩ | ⟨horizon, covariates⟩) forecast h
    · obtain rfl := Except.ok.inj h
      exact ⟨rfl, by simp [Question.horizon]⟩
    · cases h
  have ht : fiveRows.Rectangular := by
    simp [Rectangular, fiveRows, Column.length, Cells.length]
  have hnumeric : fiveRows.NumericAt ["b", "a"] := by
    intro name hname
    rcases List.mem_cons.1 hname with rfl | hname
    · exact ⟨_, rfl⟩
    · obtain rfl := List.mem_singleton.1 hname
      exact ⟨_, rfl⟩
  exact ⟨⟨hm, ht, by decide, hnumeric, rfl, rfl⟩,
    fill_aligned hm ht (by decide) hnumeric rfl rfl⟩

end GapFill

end Infill
