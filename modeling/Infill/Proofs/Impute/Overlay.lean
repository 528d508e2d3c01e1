import Infill.Proofs.Impute.Ledger
import Infill.Proofs.Table.Redrawn

/-! Predictions laid over columns. Writing predictions for the missing cells of a run comes to drawing
every cell of the column anew from what it was, and a run draws each of its columns once. -/

namespace Infill

variable {α : Type} [Scalar α]

open Table

namespace GapFill

section Overlay

/-- A missing cell takes the prediction for its row, if there is one. -/
def overlayCell (first : Nat) (predictions : List α) (row : Nat) (cell : Option α) : Option α :=
  if first ≤ row ∧ (Scalar.observed cell).isNone then predictions[row - first]?.or cell else cell

variable {cells : List (Option α)}

/-- Writing the predictions for the missing cells is laying them over the column. -/
theorem write_openCells (name : String) (first : Nat) (cells : List (Option α))
    (predictions : List α) :
    FilledCell.write (openCells name first cells predictions) cells =
      cells.mapIdx (overlayCell first predictions) := by
  refine List.ext_getElem? fun row => ?_
  rw [List.getElem?_mapIdx]
  rcases Nat.lt_or_ge row cells.length with hlt | hge
  · by_cases hwritten : ∃ c ∈ openCells name first cells predictions, c.row = row
    · obtain ⟨c, hc, rfl⟩ := hwritten
      obtain ⟨i, hi, hrow, -, hmissing⟩ := mem_openCells.1 hc
      rw [FilledCell.getElem?_write_of_mem (openCells_distinct name first cells predictions) hc hlt]
      rw [isMissing_numeric_iff] at hmissing
      rw [List.getElem?_eq_getElem hlt] at hmissing ⊢
      have hplace : c.row - first = i := by omega
      rw [Option.map_some, overlayCell, if_pos ⟨by omega, by simpa using hmissing⟩, hplace, hi]
      rfl
    · rw [FilledCell.getElem?_write_of_forall_ne fun c hc hrow => hwritten ⟨c, hc, hrow⟩,
        List.getElem?_eq_getElem hlt, Option.map_some, overlayCell]
      split_ifs with hopen
      · have hmissing : (Cells.numeric cells).isMissing row = true := by
          rw [isMissing_numeric_iff, List.getElem?_eq_getElem hlt]
          simpa using hopen.2
        have hnone : predictions[row - first]? = none :=
          Option.eq_none_iff_forall_ne_some.2 fun value hvalue => hwritten
            ⟨⟨name, row, value⟩, mem_openCells.2
              ⟨row - first, hvalue, Nat.add_sub_cancel' hopen.1, rfl, hmissing⟩, rfl⟩
        rw [hnone, Option.none_or]
      · rfl
  · rw [List.getElem?_eq_none (by rwa [FilledCell.length_write]), List.getElem?_eq_none hge]
    rfl

/-- A step of the predictions lands in its own row, if that is missing. -/
theorem map_overlayCell {first i : Nat} {predictions : List α} (hi : i < predictions.length)
    (hrow : first + i < cells.length) :
    cells[first + i]?.map (overlayCell first predictions (first + i)) =
      if (Cells.numeric cells).isMissing (first + i) then some predictions[i]?
      else cells[first + i]? := by
  have hopen : (Cells.numeric cells).isMissing (first + i) =
      (Scalar.observed cells[first + i]).isNone := by simp [Cells.isMissing, hrow]
  rw [List.getElem?_eq_getElem hrow, Option.map_some, hopen, overlayCell, Nat.add_sub_cancel_left,
    List.getElem?_eq_getElem hi, Option.some_or]
  simp only [Nat.le_add_right, true_and]
  split_ifs <;> rfl

theorem overlayCell_of_not_mem {g : Gap} {predictions : List α}
    (hlength : predictions.length ≤ g.length) {row : Nat} (hrow : row ∉ g.rows)
    (cell : Option α) : overlayCell g.first predictions row cell = cell := by
  rw [Gap.mem_rows] at hrow
  rw [overlayCell]
  split_ifs with hopen
  · rw [List.getElem?_eq_none (by omega), Option.none_or]
  · rfl

end Overlay

end GapFill

omit [Scalar α] in
theorem Table.Redrawn.numericAt {columns : List String} {draw : Nat → Nat → Option α → Option α}
    {t t' : Table α} (h : t.Redrawn columns draw t') (ht : t.NumericAt columns) :
    t'.NumericAt columns := by
  intro name hname
  obtain ⟨j, hj⟩ := List.mem_iff_getElem?.1 hname
  obtain ⟨xs, hx⟩ := ht name hname
  exact ⟨_, h.numeric j name xs hj hx⟩

namespace GapFill

variable {model : Forecaster α} {columns : List String} {covariates : List (List α)}

section Steps

variable {g : Gap} {forecast : Forecast α} {s : GapFill α}

theorem fillColumn_redraws (hdistinct : columns.Nodup) {name : String} {j : Nat}
    (hj : columns[j]? = some name) (ht : s.table.NumericAt columns) {predictions : List α}
    (hpredictions : forecast.point[j]? = some predictions)
    (hlength : predictions.length = g.length) :
    ∃ s', fillColumn g forecast s (name, j) = .ok s' ∧ s'.unfilled = s.unfilled ∧
      s.table.Redrawn columns
        (fun i => if i = j then overlayCell g.first predictions else fun _ cell => cell)
        s'.table := by
  obtain ⟨cells, hcells⟩ := ht name (List.mem_of_getElem? hj)
  have hseries : forecast.series j = .ok predictions := by rw [Forecast.series, hpredictions]
  obtain ⟨table, htable⟩ := update_total hcells
    (FilledCell.write (openCells name g.first cells predictions))
  refine ⟨⟨table, s.filled ++ openCells name g.first cells predictions, s.unfilled⟩, ?_, rfl,
    .update hdistinct hj hcells (write_openCells name g.first cells predictions) htable⟩
  simp only [fillColumn, bind_ok_iff, pure_ok_iff]
  refine ⟨predictions, hseries, cells, hcells, ?_⟩
  rw [List.take_of_length_le (Nat.le_of_eq hlength)]
  exact ⟨table, htable, rfl⟩

theorem fillColumns_redraws (hdistinct : columns.Nodup)
    (hpoint : forecast.point.length = columns.length)
    (hsteps : ∀ values ∈ forecast.point, values.length = g.length)
    {places : List (String × Nat)} (hplaces : ∀ column ∈ places, columns[column.2]? = some column.1)
    (honce : (places.map (·.2)).Nodup) (ht : s.table.NumericAt columns) :
    ∃ s', places.foldlM (fillColumn g forecast) s = .ok s' ∧ s'.unfilled = s.unfilled ∧
      s.table.Redrawn columns
        (fun j row cell => if j ∈ places.map (·.2) then
          overlayCell g.first (forecast.point.getD j []) row cell else cell) s'.table := by
  induction places generalizing s with
  | nil => exact ⟨s, rfl, rfl, by simpa using .refl columns s.table⟩
  | cons column places ih =>
    obtain ⟨name, j⟩ := column
    obtain ⟨hj, hplaces⟩ := List.forall_mem_cons.1 hplaces
    rw [List.map_cons, List.nodup_cons] at honce
    have hlt : j < forecast.point.length := hpoint ▸ (List.getElem?_eq_some_iff.1 hj).1
    have hpredictions := List.getElem?_eq_getElem hlt
    obtain ⟨m, hm, hreason, hstep⟩ := fillColumn_redraws hdistinct hj ht hpredictions
      (hsteps _ (List.getElem_mem hlt))
    obtain ⟨s', hs', hreason', hrest⟩ := ih hplaces honce.2 (hstep.numericAt ht)
    refine ⟨s', foldlM_cons_ok_iff.2 ⟨m, hm, hs'⟩, hreason'.trans hreason,
      (hstep.trans hrest).congr fun i _ => ?_⟩
    funext row cell
    by_cases hij : i = j
    · subst hij
      rw [if_pos rfl, if_neg honce.1, if_pos (by simp), List.getD_eq_getElem?_getD, hpredictions]
      rfl
    · simp only [hij, if_false, List.map_cons, List.mem_cons, false_or]

end Steps

end GapFill

end Infill
