import Mathlib.Data.List.Nodup
import Infill.Proofs.Impute.Contained
import Infill.Proofs.Impute.Runs
import Infill.Proofs.Impute.Written
import Infill.Proofs.Scalar.Finite

/-! The books of a filling. While gap after gap is filled, the list of written cells tells exactly
what has become of the table: a run that is predicted closes every missing cell of its rows, a run
that is not leaves them all, and the reason that is kept is that of the first run left open. -/

namespace Infill

variable {α : Type} [Scalar α]

open Table

section Write

variable [Scalar.FiniteIsNumber α]

theorem isMissing_set {xs : List (Option α)} {i : Nat} {x : α} (hi : i < xs.length)
    (hx : Scalar.isFinite x = true) (row : Nat) :
    (Cells.numeric (xs.set i (some x))).isMissing row = true ↔
      (Cells.numeric xs).isMissing row = true ∧ i ≠ row := by
  rw [isMissing_numeric_iff, isMissing_numeric_iff]
  by_cases h : i = row
  · subst h
    simp [hi, Scalar.observed_of_isFinite hx]
  · simp [h]

theorem isMissing_write {cells : List (FilledCell α)} {xs : List (Option α)}
    (h : ∀ c ∈ cells, c.row < xs.length ∧ Scalar.isFinite c.value = true) (row : Nat) :
    (Cells.numeric (FilledCell.write cells xs)).isMissing row = true ↔
      (Cells.numeric xs).isMissing row = true ∧ ∀ c ∈ cells, c.row ≠ row := by
  induction cells generalizing xs with
  | nil => simp [FilledCell.write]
  | cons c cells ih =>
    obtain ⟨hc, hcells⟩ := List.forall_mem_cons.1 h
    have hrest : FilledCell.write (c :: cells) xs =
        FilledCell.write cells (xs.set c.row (some c.value)) := rfl
    rw [hrest, ih fun d hd => by simpa using hcells d hd, isMissing_set hc.1 hc.2,
      List.forall_mem_cons, and_assoc]

theorem missingAt_write {t t' : Table α} {name : String} {cells : List (FilledCell α)}
    (ht : t.Rectangular)
    (hcells : ∀ c ∈ cells, c.row < t.rowCount ∧ Scalar.isFinite c.value = true)
    (h : t.update name (FilledCell.write cells) = .ok t') {other : String} {row : Nat} :
    t'.MissingAt other row ↔
      t.MissingAt other row ∧ (other = name → ∀ c ∈ cells, c.row ≠ row) := by
  by_cases hname : other = name
  · subst hname
    obtain ⟨xs, hx, hx'⟩ := update_numeric_self h
    have hlength := rectangular_numeric ht hx
    rw [missingAt_iff hx, missingAt_iff hx', isMissing_write (by rwa [hlength])]
    simp
  · simp [MissingAt, update_column?_other h hname, hname]

end Write

namespace GapFill

/-- Predictions for exactly the missing cells of a column in the rows of a run. -/
structure Closing (g : Gap) (name : String) (t : Table α) (cells : List (FilledCell α)) :
    Prop where
  missing : ∀ c ∈ cells, c.column = name ∧ c.row ∈ g.rows ∧ t.MissingAt name c.row
  finite : ∀ c ∈ cells, Scalar.isFinite c.value = true
  all : ∀ row ∈ g.rows, t.MissingAt name row → ∃ c ∈ cells, c.row = row
  distinct : (cells.map (·.row)).Nodup

section OpenCells

variable {name : String} {first : Nat} {cells : List (Option α)} {predictions : List α}

theorem mem_openCells {c : FilledCell α} :
    c ∈ openCells name first cells predictions ↔ ∃ i, predictions[i]? = some c.value ∧
      first + i = c.row ∧ c.column = name ∧ (Cells.numeric cells).isMissing c.row = true := by
  simp only [openCells, List.mem_filterMap, Prod.exists, List.mk_mem_zipIdx_iff_getElem?]
  constructor
  · rintro ⟨value, i, hi, h⟩
    split at h
    · rename_i hmissing
      obtain rfl := Option.some.inj h
      exact ⟨i, hi, rfl, rfl, isMissing_numeric_iff.2 hmissing⟩
    · simp at h
  · rintro ⟨i, hi, hrow, hname, hmissing⟩
    refine ⟨c.value, i, hi, ?_⟩
    rw [hrow, isMissing_numeric_iff.1 hmissing, ← hname]

theorem openCells_distinct (name : String) (first : Nat) (cells : List (Option α))
    (predictions : List α) : ((openCells name first cells predictions).map (·.row)).Nodup := by
  have hplaces : predictions.zipIdx.Pairwise fun a b => a.2 < b.2 := by
    rw [← List.pairwise_map, List.zipIdx_map_snd]
    exact List.pairwise_lt_range'
  rw [List.Nodup, List.pairwise_map, openCells, List.pairwise_filterMap]
  refine hplaces.imp fun {a b} hab c hc d hd => ?_
  dsimp only at hc hd
  split at hc <;> split at hd <;> simp at hc hd
  subst hc hd
  simp only [ne_eq]
  omega

theorem openCells_closing {t : Table α} {g : Gap} (hcells : t.numeric name = .ok cells)
    (hlength : predictions.length = g.length)
    (hfinite : ∀ x ∈ predictions, Scalar.isFinite x = true) :
    Closing g name t (openCells name g.first cells predictions) := by
  obtain ⟨d, hd, hx⟩ := numeric_ok_iff.1 hcells
  refine ⟨?_, ?_, ?_, openCells_distinct name g.first cells predictions⟩
  · intro c hc
    obtain ⟨i, hi, hrow, hname, hmissing⟩ := mem_openCells.1 hc
    have hlt : i < g.length := hlength ▸ (List.getElem?_eq_some_iff.1 hi).1
    refine ⟨hname, ?_, d, hd, hx ▸ hmissing⟩
    rw [Gap.rows, List.mem_range'_1]
    omega
  · intro c hc
    obtain ⟨i, hi, -⟩ := mem_openCells.1 hc
    exact hfinite c.value (List.mem_of_getElem? hi)
  · rintro row hrow ⟨e, he, hmissing⟩
    obtain rfl := Option.some.inj (hd.symm.trans he)
    rw [Gap.rows, List.mem_range'_1] at hrow
    have hlt : row - g.first < predictions.length := by omega
    refine ⟨⟨name, row, predictions[row - g.first]⟩, mem_openCells.2 ?_, rfl⟩
    exact ⟨row - g.first, by simp [hlt], Nat.add_sub_cancel' hrow.1, rfl, hx ▸ hmissing⟩

end OpenCells

/-- The list of written cells accounts for the difference between two tables. -/
structure Ledger (t : Table α) (columns : List String) (s : GapFill α) : Prop where
  writes : Writes t columns s
  table : t.writeCells s.filled = .ok s.table
  finite : ∀ c ∈ s.filled, Scalar.isFinite c.value = true
  inside : ∀ c ∈ s.filled, c.row < t.rowCount
  closed : ∀ c ∈ s.filled, ¬ s.table.MissingAt c.column c.row
  distinct : (s.filled.map fun c => (c.column, c.row)).Nodup

section Steps

variable {t : Table α} {columns : List String} {g : Gap} {forecast : Forecast α} {count : Nat}
  {s s' : GapFill α} {column : String × Nat}

theorem fillColumn_ok (hf : forecast.Covers count g.length)
    (h : fillColumn g forecast s column = .ok s') : ∃ cells,
      Closing g column.1 s.table cells ∧
      s.table.update column.1 (FilledCell.write cells) = .ok s'.table ∧
      s'.filled = s.filled ++ cells ∧ s'.unfilled = s.unfilled := by
  simp only [fillColumn, bind_ok_iff, pure_ok_iff] at h
  obtain ⟨predictions, hpredictions, cells, hcells, table, htable, rfl⟩ := h
  have hmem : predictions ∈ forecast.point := by
    unfold Forecast.series at hpredictions
    split at hpredictions
    · rename_i hget
      obtain rfl := Except.ok.inj hpredictions
      exact List.mem_of_getElem? hget
    · simp at hpredictions
  have hlength := hf.steps predictions hmem
  rw [List.take_of_length_le (Nat.le_of_eq hlength)] at htable
  refine ⟨_, openCells_closing hcells hlength (hf.finite predictions hmem), htable, ?_, rfl⟩
  rw [List.take_of_length_le (Nat.le_of_eq hlength)]

structure Advances (t : Table α) (columns : List String) (closes : String → Nat → Prop)
    (reason : Option Error) (s s' : GapFill α) : Prop where
  ledger : Ledger t columns s'
  missingAt : ∀ name row,
    s'.table.MissingAt name row ↔ s.table.MissingAt name row ∧ ¬ closes name row
  unfilled : s'.unfilled = s.unfilled.or reason

theorem Advances.of_iff {closes closes' : String → Nat → Prop} {reason : Option Error}
    (h : Advances t columns closes reason s s')
    (hiff : ∀ name row, closes' name row ↔ closes name row) :
    Advances t columns closes' reason s s' :=
  ⟨h.ledger, fun name row => by rw [h.missingAt, hiff], h.unfilled⟩

theorem Advances.trans {closes closes' : String → Nat → Prop} {reason reason' : Option Error}
    {m : GapFill α} (h : Advances t columns closes reason s m)
    (h' : Advances t columns closes' reason' m s') :
    Advances t columns (fun name row => closes name row ∨ closes' name row) (reason.or reason')
      s s' := by
  refine ⟨h'.ledger, fun name row => ?_, ?_⟩
  · rw [h'.missingAt, h.missingAt, not_or, and_assoc]
  · rw [h'.unfilled, h.unfilled, Option.or_assoc]

theorem Advances.idle {closes : String → Nat → Prop} (hs : Ledger t columns s)
    (hnone : ∀ name row, ¬ closes name row) : Advances t columns closes none s s :=
  ⟨hs, fun name row => by simp [hnone], by simp⟩

variable [Scalar.FiniteIsNumber α]

/-- What is written to a column closes its missing cells in the rows of the run, and no others. -/
theorem Closing.missingAt {table : Table α} (hs : s.table.Rectangular) {name : String}
    {cells : List (FilledCell α)} (hc : Closing g name s.table cells)
    (hrows : ∀ row ∈ g.rows, row < s.table.rowCount)
    (h : s.table.update name (FilledCell.write cells) = .ok table) (other : String) (row : Nat) :
    table.MissingAt other row ↔
      s.table.MissingAt other row ∧ ¬ (other = name ∧ row ∈ g.rows) := by
  have hinside : ∀ c ∈ cells, c.row < s.table.rowCount ∧ Scalar.isFinite c.value = true :=
    fun c hmem => ⟨hrows _ (hc.missing c hmem).2.1, hc.finite c hmem⟩
  rw [missingAt_write hs hinside h, not_and]
  refine and_congr_right fun hmissing => forall_congr' fun hname => ?_
  subst hname
  constructor
  · intro hnone hrow
    obtain ⟨c, hmem, hcr⟩ := hc.all row hrow hmissing
    exact hnone c hmem hcr
  · rintro hrow c hmem rfl
    exact hrow (hc.missing c hmem).2.1

theorem fillColumn_advances (ht : t.Rectangular) (hs : Ledger t columns s)
    (hf : forecast.Covers count g.length) (hrows : ∀ row ∈ g.rows, row < t.rowCount)
    (hcol : column.1 ∈ columns) (h : fillColumn g forecast s column = .ok s') :
    Advances t columns (fun name row => name = column.1 ∧ row ∈ g.rows) none s s' := by
  obtain ⟨cells, hc, htable, hfilled, hunfilled⟩ := fillColumn_ok hf h
  have hrows' : ∀ row ∈ g.rows, row < s.table.rowCount := by
    rw [hs.writes.table.rowCount]
    exact hrows
  have hnames : ∀ c ∈ cells, c.column = column.1 := fun c hmem => (hc.missing c hmem).1
  have hmissing := hc.missingAt (hs.writes.table.rectangular ht) hrows' htable
  refine ⟨⟨hs.writes.fillColumn hcol h, ?_, ?_, ?_, ?_, ?_⟩, hmissing, by simp [hunfilled]⟩
  all_goals rw [hfilled]
  · rw [writeCells, List.foldlM_append, bind_ok_iff]
    exact ⟨s.table, hs.table, writeCells_of_update hnames htable⟩
  · exact List.forall_mem_append.2 ⟨hs.finite, hc.finite⟩
  · exact List.forall_mem_append.2
      ⟨hs.inside, fun c hmem => hrows _ (hc.missing c hmem).2.1⟩
  · refine List.forall_mem_append.2 ⟨fun c hmem hm => ?_, fun c hmem hm => ?_⟩
    · exact hs.closed c hmem ((hmissing _ _).1 hm).1
    · exact ((hmissing _ _).1 hm).2 ⟨hnames c hmem, (hc.missing c hmem).2.1⟩
  · have hnew : (cells.map fun c => (c.column, c.row)).Nodup := by
      refine List.Nodup.of_map Prod.snd ?_
      rw [List.map_map]
      exact hc.distinct
    rw [List.map_append]
    -- what is written now is missing in a table in which everything written before is closed
    refine List.Nodup.append hs.distinct hnew fun key hold hkey => ?_
    obtain ⟨c, hmem, rfl⟩ := List.mem_map.1 hold
    obtain ⟨d, hmem', heq⟩ := List.mem_map.1 hkey
    obtain ⟨hcolumn, hrow⟩ := Prod.mk.inj heq
    refine hs.closed c hmem ?_
    rw [← hcolumn, ← hrow, hnames d hmem']
    exact (hc.missing d hmem').2.2

theorem fillColumns_advances (ht : t.Rectangular) (hf : forecast.Covers count g.length)
    (hrows : ∀ row ∈ g.rows, row < t.rowCount) {places : List (String × Nat)}
    (hplaces : ∀ column ∈ places, column.1 ∈ columns) (hs : Ledger t columns s)
    (h : places.foldlM (fillColumn g forecast) s = .ok s') :
    Advances t columns (fun name row => name ∈ places.map (·.1) ∧ row ∈ g.rows) none s s' := by
  induction places generalizing s with
  | nil =>
    obtain rfl := pure_ok_iff.1 h
    exact .idle hs (by simp)
  | cons column places ih =>
    obtain ⟨hcolumn, hplaces⟩ := List.forall_mem_cons.1 hplaces
    obtain ⟨m, hm, h⟩ := foldlM_cons_ok_iff.1 h
    have hstep := fillColumn_advances ht hs hf hrows hcolumn hm
    refine (hstep.trans (ih hplaces hstep.ledger h)).of_iff fun name row => ?_
    rw [List.map_cons, List.mem_cons, or_and_right]

theorem findSome?_cons_or {β γ : Type} (f : β → Option γ) (x : β) (xs : List β) :
    (x :: xs).findSome? f = (f x).or (xs.findSome? f) := by
  rw [List.findSome?_cons]
  cases f x <;> rfl

def reasonOf (model : Forecaster α) (covariates : List (List α)) (g : Gap) : Option Error :=
  match g.predict model covariates with
  | .ok _ => none
  | .error e => some (.gapNotFilled g.first e.message)

theorem fillRun_advances {model : Forecaster α} (hm : model.Dimensioned columns.length)
    {covariates : List (List α)} (ht : t.Rectangular) (hs : Ledger t columns s)
    (hrows : ∀ row ∈ g.rows, row < t.rowCount)
    (h : fillRun model columns covariates s g = .ok s') :
    Advances t columns
      (fun name row => name ∈ columns ∧ row ∈ g.rows ∧ reasonOf model covariates g = none)
      (reasonOf model covariates g) s s' := by
  unfold fillRun at h
  unfold reasonOf
  cases hpredict : g.predict model covariates with
  | ok forecast =>
    rw [hpredict] at h
    have hplaces : ∀ column ∈ columns.zipIdx, column.1 ∈ columns :=
      fun column hmem => List.fst_mem_of_mem_zipIdx hmem
    refine (fillColumns_advances ht (predict_covers hm hpredict) hrows hplaces hs h).of_iff ?_
    simp [List.zipIdx_map_fst]
  | error e =>
    rw [hpredict] at h
    obtain rfl := Except.ok.inj h
    exact ⟨⟨⟨hs.writes.table, hs.writes.filled⟩, hs.table, hs.finite, hs.inside, hs.closed,
      hs.distinct⟩, by simp, rfl⟩

/-- Run after run: a cell is closed by the runs that are predicted, and of the reasons the first
one counts. -/
theorem fillRuns_advances {model : Forecaster α} (hm : model.Dimensioned columns.length)
    {covariates : List (List α)} (ht : t.Rectangular) {gaps : List Gap}
    (hrows : ∀ g ∈ gaps, ∀ row ∈ g.rows, row < t.rowCount) (hs : Ledger t columns s)
    (h : gaps.foldlM (fillRun model columns covariates) s = .ok s') :
    Advances t columns (fun name row => name ∈ columns ∧
        ∃ g ∈ gaps, row ∈ g.rows ∧ reasonOf model covariates g = none)
      (gaps.findSome? (reasonOf model covariates)) s s' := by
  induction gaps generalizing s with
  | nil =>
    obtain rfl := pure_ok_iff.1 h
    exact .idle hs (by simp)
  | cons g gaps ih =>
    obtain ⟨hg, hgaps⟩ := List.forall_mem_cons.1 hrows
    obtain ⟨m, hm', h⟩ := foldlM_cons_ok_iff.1 h
    have hstep := fillRun_advances hm ht hs hg hm'
    have hrest := hstep.trans (ih hgaps hstep.ledger h)
    rw [findSome?_cons_or]
    refine hrest.of_iff fun name row => ?_
    rw [List.exists_mem_cons_iff, and_or_left]

abbrev Completes (model : Forecaster α) (covariates : List (List α)) (missing : List Bool)
    (t : Table α) (columns : List String) (s : GapFill α) : Prop :=
  Advances t columns (fun name row => name ∈ columns ∧
      ∃ g ∈ Gap.runs missing, row ∈ g.rows ∧ reasonOf model covariates g = none)
    ((Gap.runs missing).findSome? (reasonOf model covariates)) ⟨t, [], none⟩ s

theorem fill_completes {model : Forecaster α} (hm : model.Dimensioned columns.length)
    {covariates : List (List α)} (ht : t.Rectangular) {missing : List Bool}
    (hmissing : missing.length = t.rowCount)
    (h : fill model t columns missing covariates = .ok s) :
    Completes model covariates missing t columns s := by
  have hstart : Ledger t columns ⟨t, [], none⟩ :=
    ⟨⟨.refl _ t, by simp⟩, rfl, by simp, by simp, by simp, by simp⟩
  refine fillRuns_advances hm ht (fun g hg row hrow => ?_) hstart h
  have hgone := Gap.mem_runs_rows.1 ⟨g, hg, hrow⟩
  exact hmissing ▸ (List.getElem?_eq_some_iff.1 hgone).1

end Steps

end GapFill

end Infill
