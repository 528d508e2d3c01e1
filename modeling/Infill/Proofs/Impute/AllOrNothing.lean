import Infill.Proofs.Impute.HeldOut
import Infill.Proofs.Impute.SmallSplit
import Infill.Proofs.Search.Draws
import Infill.Proofs.Search.FirstBest
import Infill.Proofs.Table.Redrawn
import Infill.Proofs.Tree.Answers

/-! A filling by trees fills every missing cell of its target or none. All rows are encoded alike, so
that a model of the grid answers whatever it is asked; the search is the only step that can come to
nothing, and it comes before the table is touched. -/

namespace Infill

variable {α : Type} [Scalar α]

open Table

structure Table.Completed (t : Table α) (target : String) (cells : List (FilledCell α))
    (t' : Table α) : Prop where
  column : ∀ c ∈ cells, c.column = target
  ascending : (cells.map (·.row)).Pairwise (· < ·)
  rows : ∀ row, row ∈ cells.map (·.row) ↔ row < t.rowCount ∧ t.MissingAt target row
  rowCount : t'.rowCount = t.rowCount
  names : t'.names = t.names
  elsewhere : ∀ k, t.names.idxOf target ≠ k → t'.columns[k]? = t.columns[k]?
  values : ∃ xs ys, t.numeric target = .ok xs ∧ t'.numeric target = .ok ys ∧
    (∀ c ∈ cells, ys[c.row]? = some (some c.value)) ∧
    ∀ row, row ∉ cells.map (·.row) → ys[row]? = xs[row]?

theorem Search.best_run {β : Type} {plan : Plan} {grid : Grid} {evaluate : Config → Except Error β}
    {score : β → α} {b : Best β} (h : best? score (run plan grid evaluate) = some b) :
    b.config ∈ grid.all ∧ evaluate b.config = .ok b.result := by
  obtain ⟨config, hconfig, heq⟩ := List.mem_map.1 (List.mem_of_getElem? (getElem?_best h))
  obtain ⟨rfl, hresult⟩ := Trial.mk.inj heq
  exact ⟨(plan.draws_within grid).2 _ hconfig, hresult⟩

theorem FeatureMatrix.width_take {separator : Char} {t : Table α} {target : String}
    {rows : List Nat} (hrows : ∀ i ∈ rows, i < t.rowCount) :
    ∀ row ∈ (encode separator t target).take rows,
      row.length = (encode separator t target).featureCount := by
  refine List.forall_mem_map.2 fun i hi => ?_
  have hlt := hrows i hi
  simp [encode, featureCount, List.getD_eq_getElem?_getD, hlt]

namespace TreeFill

section Rows

variable {t : Table α} {target : String} {values : List (Option α)} {missing : List Nat}

structure Sample.Encoded (s : Sample α) (width : Nat) : Prop where
  observed : ∀ row ∈ s.x, row.length = width
  missing : ∀ row ∈ s.xMissing, row.length = width
  targets : s.x.length = s.y.length
  rows : s.xMissing.length = s.missing.length

theorem Sample.ofTable_encoded (separator : Char) (hv : t.numeric target = .ok values)
    (hm : t.missingRows target = .ok missing) :
    (Sample.ofTable separator t values missing target).Encoded
      (FeatureMatrix.encode separator t target).featureCount := by
  have hobserved := observedRows_eq hm
  have hlisted : ∀ i ∈ missing, i < t.rowCount := fun i hi => ((mem_missingRows hm).1 hi).1
  refine ⟨FeatureMatrix.width_take fun i hi => ?_, FeatureMatrix.width_take hlisted, ?_, ?_⟩
  · exact List.mem_range.1 (List.mem_of_mem_filter hi)
  · have hthere : ∀ row ∈ t.observedRows target, (values[row]?.join).isSome :=
      fun row => isSome_of_mem_observedRows hv
    unfold Sample.ofTable
    dsimp only
    rw [hobserved, List.filterMap_length_eq_length.2 hthere, FeatureMatrix.take, List.length_map]
  · exact List.length_map _

end Rows

section Models

variable {kind : TreeKind} {s : Sample α} {width : Nat} {settings : Settings α} {split : Split}
  {config : Search.Config}

omit [Scalar α] in
theorem treeCount_of_mem_grid (hconfig : config ∈ kind.grid.all) (seed : UInt64) :
    (kind.build config seed : RowModel α).treeCount ≠ 0 := by
  cases kind with
  | decisionTree => exact one_ne_zero
  | randomForest =>
    have hlisted : "n_estimators" ∈ TreeKind.randomForest.grid.map (·.1) := by decide
    obtain ⟨counts, hcounts, hget⟩ := Search.Grid.get_mem hconfig hlisted
    obtain rfl : counts = [2, 3, 4, 5] := by
      simpa [TreeKind.grid, TreeKind.limitGrid] using hcounts
    intro hzero
    change config.get "n_estimators" = 0 at hzero
    rw [hzero] at hget
    simp at hget

/-- A model of the grid that is fitted to some of the observed rows answers all rows. -/
theorem trainer_answers (hs : s.Encoded width) (hconfig : config ∈ kind.grid.all)
    (seed : UInt64) {x : List (List α)} {y : List α} (hx : x ⊆ s.x) (hrows : x.length = y.length)
    (hy : y ≠ []) : ∃ predict, (kind.build config seed).trainer x y = .ok predict ∧
      predict.Answers width :=
  RowModel.trainer_answers _ hrows (fun row hrow => hs.observed row (hx hrow)) hy
    (treeCount_of_mem_grid hconfig _)

omit [Scalar α] in
theorem length_train (hs : s.Encoded width) (hsplit : split.count = s.y.length) :
    (split.train.inside s.x).length = split.trainCount ∧
      (split.train.inside s.y).length = split.trainCount := by
  have hstop : split.train.stop ≤ s.y.length := hsplit ▸ Nat.sub_le ..
  exact ⟨Window.length_inside (hs.targets ▸ hstop), Window.length_inside hstop⟩

/-- A trial fails for want of rows or folds only. -/
theorem trial_error (hs : s.Encoded width) (hsplit : split.count = s.y.length)
    (hconfig : config ∈ kind.grid.all) {e : Error}
    (h : trial kind s split settings config = .error e) : e = .invalidParameter
      s!"cannot split {split.trainCount} rows into {min settings.folds split.trainCount} folds" := by
  obtain ⟨hx, hy⟩ := length_train hs hsplit
  have hrows := hx.trans hy.symm
  have hpredicts : Folds.Predicts (kind.build config settings.seed : RowModel α).trainer
      (split.train.inside s.x) (split.train.inside s.y) :=
    Folds.predicts_of_answers hrows
      (fun row hrow => hs.observed row (split.train.inside_subset _ hrow))
      fun x' y' hx' => trainer_answers hs hconfig settings.seed
        fun _ hrow => split.train.inside_subset _ (hx' hrow)
  rw [← hy]
  rcases bind_error_iff.1 h with h | ⟨report, -, h⟩
  · exact (Folds.crossValidate_error hrows hpredicts h).2
  · cases h

theorem trainCount_of_trial (hs : s.Encoded width) (hsplit : split.count = s.y.length) {score : α}
    (h : trial kind s split settings config = .ok score) : split.trainCount ≠ 0 := by
  obtain ⟨report, hreport, -⟩ := bind_ok_iff.1 h
  have htwo := Folds.two_le_of_crossValidate hreport
  rw [(length_train hs hsplit).2] at htwo
  omega

theorem predictions_total (hs : s.Encoded width) (hsplit : split.count = s.y.length)
    (hconfig : config ∈ kind.grid.all) (seed : UInt64) (htrain : split.trainCount ≠ 0) :
    ∃ score values, predictions (kind.build config seed) s split = .ok (score, values) ∧
      values.length = s.missing.length := by
  obtain ⟨hx, hy⟩ := length_train hs hsplit
  have hsome : split.train.inside s.y ≠ [] := by
    rw [← List.length_pos_iff, hy]
    omega
  obtain ⟨predict, hfit, hanswers⟩ := trainer_answers hs hconfig seed
    (split.train.inside_subset _) (hx.trans hy.symm) hsome
  obtain ⟨test, htest, hcount⟩ := hanswers (split.test.inside s.x)
    fun row hrow => hs.observed row (split.test.inside_subset _ hrow)
  have hstop : split.test.stop ≤ s.y.length := hsplit.le
  have hscored : (split.test.inside s.y).length = test.length := by
    rw [hcount, Window.length_inside hstop, Window.length_inside (hs.targets ▸ hstop)]
  obtain ⟨score, hscore⟩ := Score.exists_holdout_iff (n := split.accuracyCount).2
    (Score.exists_r2Average_iff.2 ⟨List.cons_ne_nil _ _, .cons hscored .nil⟩)
  obtain ⟨values, hvalues, hlength⟩ := hanswers s.xMissing hs.missing
  refine ⟨score, values, ?_, hlength.trans hs.rows⟩
  simp only [predictions, check_ok_iff, bind_ok_iff, pure_ok_iff]
  exact ⟨htrain, predict, hfit, test, htest, score, hscore, values, hvalues, rfl⟩

end Models

section Tables

variable {t : Table α} {target : String} {values : List (Option α)} {missing : List Nat}

omit [Scalar α] in
theorem map_row_cellsOf (target : String) {predicted : List α}
    (h : predicted.length = missing.length) :
    (cellsOf target missing predicted).map (·.row) = missing := by
  rw [cellsOf, List.map_zipWith, ← List.map_uncurry_zip_eq_zipWith]
  exact List.map_fst_zip h.ge

theorem cellsOf_completes (ht : t.Rectangular) (hv : t.numeric target = .ok values)
    (hm : t.missingRows target = .ok missing) {predicted : List α}
    (h : predicted.length = missing.length) :
    ∃ t', t.update target (FilledCell.write (cellsOf target missing predicted)) = .ok t' ∧
      t.Completed target (cellsOf target missing predicted) t' := by
  have hrows := map_row_cellsOf target h
  have hascending := pairwise_missingRows hm
  obtain ⟨t', ht'⟩ := update_total hv (FilledCell.write (cellsOf target missing predicted))
  refine ⟨t', ht', {
    column := fun c hc => (cellsOf_spec hc).1
    ascending := by rwa [hrows]
    rows := fun row => by rw [hrows, mem_missingRows hm]
    rowCount := update_rowCount ht'
    names := update_names ht'
    elsewhere := fun k => update_elsewhere ht'
    values := ?_ }⟩
  obtain ⟨xs, hx, hy⟩ := update_numeric_self ht'
  refine ⟨xs, _, hx, hy, fun c hc => ?_, fun row hrow => ?_⟩
  · have hlt : c.row < xs.length := by
      rw [rectangular_numeric ht hx]
      exact ((mem_missingRows hm).1 (cellsOf_spec hc).2).1
    refine FilledCell.getElem?_write_of_mem ?_ hc hlt
    rw [hrows]
    exact hascending.imp Nat.ne_of_lt
  · exact FilledCell.getElem?_write_of_forall_ne fun c hc heq =>
      hrow (heq ▸ List.mem_map_of_mem hc)

end Tables

/-- The ways in which a filling ends: nothing was missing, nothing was filled, or everything was. -/
inductive Ending
  | idle
  | refused
  | completed
  deriving DecidableEq

def Ending.Describes (ending : Ending) (kind : TreeKind) (t : Table α) (target : String)
    (i : Imputation α) : Prop :=
  match ending with
  | idle => (∀ row < t.rowCount, ¬ t.MissingAt target row) ∧ i = .unchanged t
  | refused => (∃ row < t.rowCount, t.MissingAt target row) ∧
      i.failure = some (.noSuccessfulTrial kind.name) ∧ i.filled = none ∧ i.table = t
  | completed => (∃ row < t.rowCount, t.MissingAt target row) ∧ i.failure = none ∧
      ∃ cells, i.filled = some cells ∧ t.Completed target cells i.table

theorem Ending.eq_of_describes {ending ending' : Ending} {kind : TreeKind} {t : Table α}
    {target : String} {i : Imputation α} (h : ending.Describes kind t target i)
    (h' : ending'.Describes kind t target i) : ending = ending' := by
  cases ending <;> cases ending'
  case idle.idle | refused.refused | completed.completed => rfl
  case idle.refused | idle.completed =>
    obtain ⟨row, hrow, hmissing⟩ := h'.1
    exact absurd hmissing (h.1 row hrow)
  case refused.idle | completed.idle =>
    obtain ⟨row, hrow, hmissing⟩ := h.1
    exact absurd hmissing (h'.1 row hrow)
  case refused.completed => exact absurd (h.2.1.symm.trans h'.2.1) (Option.some_ne_none _)
  case completed.refused => exact absurd (h'.2.1.symm.trans h.2.1) (Option.some_ne_none _)

/-- No model of the grid is ever asked for a row of another width than those it was fitted to. -/
structure Sample.Answered (s : Sample α) (kind : TreeKind) (settings : Settings α) : Prop where
  fits : ∀ config ∈ kind.grid.all, ∀ x y, x ⊆ s.x → x.length = y.length → y ≠ [] →
    ∃ predict, (kind.build config settings.seed).trainer x y = .ok predict ∧
      ∀ rows, rows ⊆ s.x ++ s.xMissing →
        ∃ answers, predict rows = .ok answers ∧ answers.length = rows.length
  trials : ∀ config ∈ kind.grid.all, ∀ split : Split, split.count = s.y.length →
    ∀ e, trial kind s split settings config = .error e → e = .invalidParameter
      s!"cannot split {split.trainCount} rows into {min settings.folds split.trainCount} folds"
  predictions : ∀ config ∈ kind.grid.all, ∀ split : Split, split.count = s.y.length →
    split.trainCount ≠ 0 → ∃ score values,
      predictions (kind.build config settings.seed) s split = .ok (score, values) ∧
      values.length = s.missing.length

theorem Sample.Encoded.answered {s : Sample α} {width : Nat} (hs : s.Encoded width)
    (kind : TreeKind) (settings : Settings α) : s.Answered kind settings where
  fits config hconfig x y hx hrows hy := by
    obtain ⟨predict, hfit, hanswers⟩ := trainer_answers hs hconfig settings.seed hx hrows hy
    refine ⟨predict, hfit, fun rows hasked => hanswers rows fun row hrow => ?_⟩
    exact (List.mem_append.1 (hasked hrow)).elim (hs.observed row) (hs.missing row)
  trials _ hconfig _ hsplit _ := trial_error hs hsplit hconfig
  predictions _ hconfig _ hsplit := predictions_total hs hsplit hconfig settings.seed

variable {t : Table α} {target : String} {values : List (Option α)} {missing : List Nat}

theorem finish_completes (ht : t.Rectangular) (hv : t.numeric target = .ok values)
    (hm : t.missingRows target = .ok missing) {kind : TreeKind} {s : Sample α} {width : Nat}
    (hs : s.Encoded width) (hmissing : s.missing = missing) {split : Split}
    (hsplit : split.count = s.y.length) (htrain : split.trainCount ≠ 0) (successes : Nat)
    {best : Search.Config} (hbest : best ∈ kind.grid.all) (settings : Settings α) :
    ∃ i, finish kind t target s split successes best settings = .ok i ∧ i.failure = none ∧
      ∃ cells, i.filled = some cells ∧ t.Completed target cells i.table := by
  obtain ⟨score, predicted, hpredicted, hlength⟩ :=
    predictions_total hs hsplit hbest settings.seed htrain
  rw [hmissing] at hlength
  obtain ⟨t', ht', hcompleted⟩ := cellsOf_completes ht hv hm hlength
  rw [finish, hpredicted, hmissing]
  dsimp only
  rw [ht']
  exact ⟨_, rfl, rfl, _, rfl, hcompleted⟩

theorem train_ends (ht : t.Rectangular) (hv : t.numeric target = .ok values)
    (hm : t.missingRows target = .ok missing) (kind : TreeKind) (testSize accuracySize : Nat)
    (settings : Settings α) :
    ∃ i, train t target kind testSize accuracySize settings = .ok i ∧
      ∃ ending : Ending, ending.Describes kind t target i := by
  have hs := Sample.ofTable_encoded settings.separator hv hm
  rw [train, hv, hm]
  dsimp only [bind, Except.bind]
  by_cases hnone : missing = []
  · rw [if_pos (by simpa using hnone)]
    refine ⟨_, rfl, .idle, fun row hrow hmissing => ?_, rfl⟩
    have hlisted := (mem_missingRows hm).2 ⟨hrow, hmissing⟩
    rw [hnone] at hlisted
    cases hlisted
  · have hopen : ∃ row < t.rowCount, t.MissingAt target row := by
      obtain ⟨row, hrow⟩ := List.exists_mem_of_ne_nil _ hnone
      exact ⟨row, (mem_missingRows hm).1 hrow⟩
    rw [if_neg (by simpa using hnone)]
    split
    · rename_i e he
      obtain ⟨-, rfl⟩ := Search.requireBest_error_iff.1 he
      exact ⟨_, rfl, .refused, hopen, rfl, rfl, rfl⟩
    · rename_i best hbest
      obtain ⟨hconfig, htrial⟩ := Search.best_run (Search.requireBest_ok_iff.1 hbest)
      obtain ⟨i, hi, hcompleted⟩ := finish_completes ht hv hm hs rfl rfl
        (trainCount_of_trial hs rfl htrial) _ hconfig settings
      exact ⟨i, hi, .completed, hopen, hcompleted⟩

/-- A filling by trees never fails as a whole, and it ends in exactly one of three ways. No step of it
fails for the width of a row. -/
theorem train_all_or_nothing (ht : t.Rectangular) (hv : t.numeric target = .ok values)
    (kind : TreeKind) (testSize accuracySize : Nat) (settings : Settings α) :
    ∃ missing i, t.missingRows target = .ok missing ∧
      train t target kind testSize accuracySize settings = .ok i ∧
      (∃! ending : Ending, ending.Describes kind t target i) ∧
      (Sample.ofTable settings.separator t values missing target).Answered kind settings := by
  obtain ⟨c, hc, -⟩ := numeric_ok_iff.1 hv
  obtain ⟨missing, hm⟩ := missingRows_total (name_mem_of_column? hc)
  have hs := Sample.ofTable_encoded settings.separator hv hm
  obtain ⟨i, hi, ending, hending⟩ := train_ends ht hv hm kind testSize accuracySize settings
  exact ⟨missing, i, hm, hi, ⟨ending, hending, fun _ h => Ending.eq_of_describes h hending⟩,
    hs.answered kind settings⟩

def twoFolds : Settings Float := { Settings.standard with trials := 1, folds := 2 }

def loneCounts : Table Float :=
  ⟨[⟨"adults", .numeric [some 10.0, some 7.0, none, some 12.0, some 8.0]⟩], 5⟩

/-- Two folds complete the counts, and three are too many for them. -/
theorem loneCounts_ends : loneCounts.Rectangular ∧
    (∃ values, loneCounts.numeric "adults" = .ok values) ∧
    (∃ i, train loneCounts "adults" .decisionTree 0 0 twoFolds = .ok i ∧
      Ending.completed.Describes .decisionTree loneCounts "adults" i) ∧
    ∃ i, train loneCounts "adults" .decisionTree 0 0 threeFolds = .ok i ∧
      Ending.refused.Describes .decisionTree loneCounts "adults" i := by
  have ht : loneCounts.Rectangular := by
    simp [Rectangular, loneCounts, Column.length, Cells.length]
  have hv : loneCounts.numeric "adults" =
      .ok [some 10.0, some 7.0, none, some 12.0, some 8.0] := rfl
  have hopen : loneCounts.MissingAt "adults" 2 := ⟨_, rfl, by decide⟩
  have hcompleted : ((train loneCounts "adults" .decisionTree 0 0 twoFolds).map
      (·.failure.isNone)).toOption = some true := by decide +kernel
  have hrefused : ((train loneCounts "adults" .decisionTree 0 0 threeFolds).map
      (·.failure.isNone)).toOption = some false := by decide +kernel
  obtain ⟨-, i, -, hi, ⟨ending, hending, -⟩, -⟩ :=
    train_all_or_nothing ht hv .decisionTree 0 0 twoFolds
  obtain ⟨-, j, -, hj, ⟨ending', hending', -⟩, -⟩ :=
    train_all_or_nothing ht hv .decisionTree 0 0 threeFolds
  rw [hi] at hcompleted
  rw [hj] at hrefused
  refine ⟨ht, ⟨_, hv⟩, ⟨i, hi, ?_⟩, j, hj, ?_⟩
  · have hnone : i.failure.isNone = true := Option.some.inj hcompleted
    cases ending with
    | idle => exact absurd hopen (hending.1 2 (by decide))
    | refused => simp [hending.2.1] at hnone
    | completed => exact hending
  · have hsome : j.failure.isNone = false := Option.some.inj hrefused
    cases ending' with
    | idle => exact absurd hopen (hending'.1 2 (by decide))
    | refused => exact hending'
    | completed => simp [hending'.2.1] at hsome

end TreeFill

end Infill
