import Infill.Impute.SeriesFill
import Infill.Impute.TreeFill
import Infill.Proofs.Table.Filling

/-! What a family of models writes. Whatever it predicts, and whether or not its search and its fits
succeed, the table that it hands back fills the one it was given, and every cell that it lists was
missing there. -/

namespace Infill

variable {α : Type} [Scalar α]

open Table

def Table.writeCells (t : Table α) (cells : List (FilledCell α)) : Except Error (Table α) :=
  cells.foldlM (fun t c => t.setCell c.column c.row (some c.value)) t

theorem Table.Fills.writeCells {writable : String → Prop} {t t' t'' : Table α}
    (h : t.Fills writable t') {cells : List (FilledCell α)}
    (hc : ∀ c ∈ cells, writable c.column ∧ t.MissingAt c.column c.row)
    (hw : t'.writeCells cells = .ok t'') : t.Fills writable t'' := by
  refine foldlM_keeps (t.Fills writable) (fun s c hmem hs s' hs' => ?_) h hw
  obtain ⟨hcol, hmiss⟩ := hc c hmem
  exact hs.setCell hmiss hcol hs'

omit [Scalar α] in
theorem writeCells_of_update {t t' : Table α} {name : String} {cells : List (FilledCell α)}
    (hname : ∀ c ∈ cells, c.column = name) (h : t.update name (FilledCell.write cells) = .ok t') :
    t.writeCells cells = .ok t' := by
  induction cells generalizing t with
  | nil =>
    obtain ⟨xs, hx, -⟩ := update_numeric_self h
    rw [← h]
    exact (update_of_fixed hx rfl).symm
  | cons c cells ih =>
    obtain ⟨xs, hx, -⟩ := update_numeric_self h
    obtain ⟨m, hm⟩ := update_total hx (·.set c.row (some c.value))
    have hrest := update_update hm (FilledCell.write cells)
    refine foldlM_cons_ok_iff.2 ⟨m, ?_, ih (fun d hd => hname d (by simp [hd])) ?_⟩
    · rw [hname c (by simp)]
      exact hm
    · rw [hrest]
      exact h

namespace FilledCell

variable {cells : List (Option α)} {filled : List (FilledCell α)}

omit [Scalar α] in
theorem length_write (filled : List (FilledCell α)) (cells : List (Option α)) :
    (FilledCell.write filled cells).length = cells.length := by
  induction filled generalizing cells with
  | nil => rfl
  | cons c filled ih => exact (ih _).trans List.length_set

omit [Scalar α] in
theorem getElem?_write_of_forall_ne {row : Nat} (h : ∀ c ∈ filled, c.row ≠ row) :
    (FilledCell.write filled cells)[row]? = cells[row]? := by
  induction filled generalizing cells with
  | nil => rfl
  | cons c filled ih =>
    obtain ⟨hc, hfilled⟩ := List.forall_mem_cons.1 h
    exact (ih hfilled).trans (List.getElem?_set_ne hc)

omit [Scalar α] in
/-- Where no row is written twice, every prediction stands in its row in the end. -/
theorem getElem?_write_of_mem (hdistinct : (filled.map (·.row)).Nodup) {c : FilledCell α}
    (hc : c ∈ filled) (hrow : c.row < cells.length) :
    (FilledCell.write filled cells)[c.row]? = some (some c.value) := by
  induction filled generalizing cells with
  | nil => cases hc
  | cons d filled ih =>
    rw [List.map_cons, List.nodup_cons] at hdistinct
    rcases List.mem_cons.1 hc with rfl | hc
    · have hlast : ∀ e ∈ filled, e.row ≠ c.row := fun e he heq =>
        hdistinct.1 (heq ▸ List.mem_map_of_mem he)
      refine (getElem?_write_of_forall_ne hlast).trans ?_
      rw [List.getElem?_set_self hrow]
    · exact ih hdistinct.2 hc (by rwa [List.length_set])

end FilledCell

/-- A filling that writes nothing but missing cells of writable columns. -/
structure Imputation.Writes (writable : String → Prop) (t : Table α) (i : Imputation α) :
    Prop where
  table : t.Fills writable i.table
  filled : ∀ cells, i.filled = some cells →
    ∀ c ∈ cells, writable c.column ∧ t.MissingAt c.column c.row

theorem Imputation.Writes.nothing {writable : String → Prop} {t : Table α} {i : Imputation α}
    (ht : i.table = t) (hf : i.filled = none) : i.Writes writable t :=
  ⟨ht ▸ .refl _ _, by simp [hf]⟩

namespace GapFill

theorem openCells_spec {column : String} {first : Nat} {cells : List (Option α)}
    {predictions : List α} {c : FilledCell α} (h : c ∈ openCells column first cells predictions) :
    c.column = column ∧ (Cells.numeric cells).isMissing c.row = true := by
  obtain ⟨⟨value, i⟩, -, hc⟩ := List.mem_filterMap.1 h
  simp only at hc
  split at hc
  · rename_i hmiss
    obtain rfl := Option.some.inj hc
    exact ⟨rfl, isMissing_numeric_iff.2 hmiss⟩
  · simp at hc

/-- A table in the course of being filled. -/
structure Writes (t : Table α) (columns : List String) (s : GapFill α) : Prop where
  table : t.Fills (· ∈ columns) s.table
  filled : ∀ c ∈ s.filled, c.column ∈ columns ∧ t.MissingAt c.column c.row

theorem Writes.fillColumn {t : Table α} {columns : List String} {s s' : GapFill α}
    (hs : Writes t columns s) {g : Gap} {forecast : Forecast α} {column : String × Nat}
    (hcol : column.1 ∈ columns) (h : fillColumn g forecast s column = .ok s') :
    Writes t columns s' := by
  simp only [GapFill.fillColumn, bind_ok_iff, pure_ok_iff] at h
  obtain ⟨predictions, -, cells, hcells, table, htable, rfl⟩ := h
  have hopen : ∀ c ∈ openCells column.1 g.first cells (predictions.take g.length),
      c.column ∈ columns ∧ t.MissingAt c.column c.row := by
    intro c hc
    obtain ⟨hname, hmiss⟩ := openCells_spec hc
    obtain ⟨d, hd, hx⟩ := numeric_ok_iff.1 hcells
    rw [hname]
    exact ⟨hcol, hs.table.missingAt ⟨d, hd, hx ▸ hmiss⟩⟩
  refine ⟨hs.table.writeCells hopen
    (writeCells_of_update (fun c hc => (openCells_spec hc).1) htable), ?_⟩
  intro c hc
  rcases List.mem_append.1 hc with hc | hc
  · exact hs.filled c hc
  · exact hopen c hc

theorem Writes.fillRun {model : Forecaster α} {t : Table α} {columns : List String}
    {covariates : List (List α)} {s s' : GapFill α} (hs : Writes t columns s) {g : Gap}
    (h : fillRun model columns covariates s g = .ok s') : Writes t columns s' := by
  unfold GapFill.fillRun at h
  split at h
  · refine foldlM_keeps (Writes t columns) (fun s c hc hs s' => hs.fillColumn ?_) hs h
    exact List.fst_mem_of_mem_zipIdx hc
  · obtain rfl := Except.ok.inj h
    exact ⟨hs.table, hs.filled⟩

theorem fill_writes {model : Forecaster α} {t : Table α} {columns : List String}
    {missing : List Bool} {covariates : List (List α)} {s : GapFill α}
    (h : fill model t columns missing covariates = .ok s) : Writes t columns s :=
  foldlM_keeps (Writes t columns) (fun _ _ _ hs _ => hs.fillRun) ⟨.refl _ _, by simp⟩ h

end GapFill

namespace SeriesFill

theorem finish_writes {family : Family α} {s : Sample α} {split : Split} {successes : Nat}
    {best : Search.Best (Score.Holdout α)} {i : Imputation α}
    (h : finish family s split successes best = .ok i) : i.Writes (· ∈ s.targets) s.table := by
  unfold finish at h
  split at h
  · obtain rfl := pure_ok_iff.1 h
    exact .nothing rfl rfl
  · obtain ⟨gaps, hgaps, h⟩ := bind_ok_iff.1 h
    obtain rfl := pure_ok_iff.1 h
    have hw := GapFill.fill_writes hgaps
    refine ⟨hw.table, ?_⟩
    rintro cells ⟨⟩
    exact hw.filled

theorem train_writes {family : Family α} {s : Sample α} {testSize accuracySize : Nat}
    {settings : Settings α} {i : Imputation α}
    (h : train family s testSize accuracySize settings = .ok i) :
    i.Writes (· ∈ s.targets) s.table := by
  unfold train at h
  split at h
  · dsimp only at h
    split at h
    · obtain rfl := Except.ok.inj h
      exact .nothing rfl rfl
    · exact finish_writes h
  · obtain rfl := Except.ok.inj h
    exact .nothing rfl rfl

theorem Single.train_writes {frame : Table α} {target : String} {testSize accuracySize : Nat}
    {settings : Settings α} {i : Imputation α} {count : Nat}
    (h : Single.train frame target testSize accuracySize settings = .ok (i, count)) :
    i.Writes (· = target) frame := by
  simp only [Single.train, Sample.ofTable, bind_ok_iff, pure_ok_iff] at h
  obtain ⟨s, ⟨series, -, rfl⟩, j, hj, heq⟩ := h
  obtain ⟨rfl, -⟩ := Prod.mk.inj heq
  simpa using SeriesFill.train_writes hj

theorem Joint.train_writes {wide : Table α} {measure : String} {testSize accuracySize : Nat}
    {settings : Settings α} {i : Imputation α} {dims : Dimensions}
    (h : Joint.train wide measure testSize accuracySize settings = .ok (i, dims)) :
    i.Writes (· ∈ SeriesName.ofMeasure settings.separator wide measure) wide := by
  unfold Joint.train at h
  rw [check_ok_iff] at h
  simp only [Sample.ofTable, bind_ok_iff, pure_ok_iff] at h
  obtain ⟨-, s, ⟨series, -, rfl⟩, j, hj, heq⟩ := h
  obtain ⟨rfl, -⟩ := Prod.mk.inj heq
  exact SeriesFill.train_writes hj

end SeriesFill

namespace TreeFill

omit [Scalar α] in
theorem cellsOf_spec {target : String} {missing : List Nat} {values : List α} {c : FilledCell α}
    (h : c ∈ cellsOf target missing values) : c.column = target ∧ c.row ∈ missing := by
  obtain ⟨i, hi, rfl⟩ := List.getElem_of_mem h
  simp [cellsOf]

theorem finish_writes {kind : TreeKind} {t : Table α} {target : String} {s : Sample α}
    {split : Split} {successes : Nat} {best : Search.Config} {settings : Settings α}
    {i : Imputation α}
    (hmiss : ∀ row ∈ s.missing, t.MissingAt target row)
    (h : finish kind t target s split successes best settings = .ok i) :
    i.Writes (· = target) t := by
  unfold finish at h
  dsimp only at h
  split at h
  · obtain rfl := Except.ok.inj h
    exact .nothing rfl rfl
  · rename_i score values _
    have hcells : ∀ c ∈ cellsOf target s.missing values,
        c.column = target ∧ t.MissingAt c.column c.row := by
      intro c hc
      obtain ⟨hname, hrow⟩ := cellsOf_spec hc
      exact ⟨hname, hname ▸ hmiss _ hrow⟩
    split at h
    · obtain rfl := Except.ok.inj h
      exact .nothing rfl rfl
    · rename_i hupdate
      obtain rfl := Except.ok.inj h
      refine ⟨(Fills.refl _ t).writeCells hcells
        (writeCells_of_update (fun c hc => (hcells c hc).1) hupdate), ?_⟩
      rintro cells ⟨⟩
      exact hcells

theorem train_writes {t : Table α} {target : String} {kind : TreeKind}
    {testSize accuracySize : Nat} {settings : Settings α} {i : Imputation α}
    (h : train t target kind testSize accuracySize settings = .ok i) :
    i.Writes (· = target) t := by
  simp only [train, bind_ok_iff] at h
  obtain ⟨values, -, missing, hmissing, h⟩ := h
  have hmiss : ∀ row ∈ missing, t.MissingAt target row :=
    fun row hrow => ((mem_missingRows hmissing).1 hrow).2
  split at h
  · obtain rfl := pure_ok_iff.1 h
    exact .nothing rfl rfl
  split at h
  · obtain rfl := pure_ok_iff.1 h
    exact .nothing rfl rfl
  · exact finish_writes hmiss h

end TreeFill

end Infill
