import Infill.Proofs.Folds
import Infill.Proofs.Tree.Range

/-! Rows of one width never get in the way. A model that is fitted to some of them answers all of them,
so that a cross-validation of it fails for nothing but want of rows. -/

namespace Infill

variable {α : Type} [Scalar α] {x : List (List α)} {y : List α} {width : Nat}

def Folds.Predictor.Answers (predict : Folds.Predictor α) (width : Nat) : Prop :=
  ∀ rows : List (List α), (∀ row ∈ rows, row.length = width) →
    ∃ values, predict rows = .ok values ∧ values.length = rows.length

theorem DecisionTree.fit_answers (m : DecisionTree α) (hrows : x.length = y.length)
    (hwidth : ∀ row ∈ x, row.length = width) (hy : y ≠ []) :
    ∃ m', m.fit x y = (m', none) ∧ Folds.Predictor.Answers m'.predict width := by
  have hsample : List.range y.length ≠ [] := by simpa using hy
  have hgrown := GrownTree.ofSample_eq m.limits hrows hwidth hsample fun _ => List.mem_range.1
  refine ⟨_, by rw [fit, fitSample, hgrown], fun rows hrows => ?_⟩
  exact ⟨_, GrownTree.predict_eq _ hrows, List.length_map _⟩

theorem Forest.fit_answers (m : Forest α) (hrows : x.length = y.length)
    (hwidth : ∀ row ∈ x, row.length = width) (hy : y ≠ []) (hcount : m.limits.treeCount ≠ 0) :
    ∃ m', m.fit x y = (m', none) ∧ Folds.Predictor.Answers m'.predict width := by
  refine ⟨_, by rw [fit, grow_eq hcount hrows hwidth hy], fun rows hrows => ?_⟩
  have hdrawn := samples_ne_nil hcount y.length (Chance.Generator.ofSeed m.limits.seed)
  exact ⟨_, predict_eq (by simpa using hdrawn) (List.forall_mem_map.2 fun _ _ => hrows),
    List.length_map _⟩

/-- As many targets as rows, some of them, and a tree to grow are enough for a fit. -/
theorem RowModel.trainer_answers (m : RowModel α) (hrows : x.length = y.length)
    (hwidth : ∀ row ∈ x, row.length = width) (hy : y ≠ []) (hcount : m.treeCount ≠ 0) :
    ∃ predict, m.trainer x y = .ok predict ∧ predict.Answers width := by
  unfold trainer
  cases m with
  | tree m =>
    obtain ⟨m', hfit, hanswers⟩ := m.fit_answers hrows hwidth hy
    exact ⟨(tree m').predict, by rw [fit, hfit], hanswers⟩
  | forest m =>
    obtain ⟨m', hfit, hanswers⟩ := m.fit_answers hrows hwidth hy hcount
    exact ⟨(forest m').predict, by rw [fit, hfit], hanswers⟩

namespace Folds

variable {train : Trainer α}

omit [Scalar α] in
theorem predicts_of_answers (hrows : x.length = y.length) (hwidth : ∀ row ∈ x, row.length = width)
    (h : ∀ x' y', x' ⊆ x → x'.length = y'.length → y' ≠ [] →
      ∃ predict, train x' y' = .ok predict ∧ predict.Answers width) : Predicts train x y := by
  intro w hfirst hstop hlt
  have hseen : (w.outside y).length = y.length - w.length :=
    Window.length_outside hfirst.le hstop
  have hpaired : (w.outside x).length = (w.outside y).length := by
    rw [hseen, Window.length_outside hfirst.le (hrows ▸ hstop), hrows]
  have hsome : w.outside y ≠ [] := by
    rw [← List.length_pos_iff, hseen]
    omega
  obtain ⟨predict, htrain, hanswers⟩ := h _ _ (w.outside_subset x) hpaired hsome
  obtain ⟨predicted, hpredicted, hlength⟩ := hanswers (w.inside x)
    fun row hrow => hwidth row (w.inside_subset x hrow)
  exact ⟨predicted, bind_ok_iff.2 ⟨predict, htrain, hpredicted⟩,
    hlength.trans (Window.length_inside (hrows ▸ hstop))⟩

/-- The mean score of a model that can be fitted and predicts fails for want of rows or folds. -/
theorem crossValidate_error (hrows : x.length = y.length) (hpredicts : Predicts train x y)
    {folds : Nat} {e : Error} (h : crossValidate train x y folds = .error e) :
    min folds y.length < 2 ∧ e = .invalidParameter
      s!"cannot split {y.length} rows into {min folds y.length} folds" := by
  rw [crossValidate, if_neg (not_not.2 hrows)] at h
  rcases bind_error_iff.1 h with h | ⟨ws, hws, h⟩
  · unfold windows at h
    split_ifs at h with hcut
    simp only [Bool.or_eq_true, decide_eq_true_eq] at hcut
    exact ⟨by omega, (Except.error.inj h).symm⟩
  · obtain ⟨htwo, hparts⟩ := parts_of_windows hws
    have htotal : ∀ w ∈ ws, ∃ score, foldScore train x y w = .ok score := by
      intro w hw
      obtain ⟨predicted, hpredicted, hlength⟩ := hpredicts w (hparts.nonempty w hw)
        (hparts.stop_le hw) (hparts.length_lt htwo hw)
      rw [foldScore_eq, hpredicted]
      exact Score.exists_r2_iff.2 (by rw [Window.length_inside (hparts.stop_le hw), hlength])
    obtain ⟨scores, hscores⟩ := mapM_total htotal
    rw [hscores] at h
    cases h

/-- Scored rows are at least two. -/
theorem two_le_of_crossValidate {folds : Nat} {report : Report α}
    (h : crossValidate train x y folds = .ok report) : 2 ≤ y.length := by
  unfold crossValidate at h
  split_ifs at h
  obtain ⟨ws, hws, -⟩ := bind_ok_iff.1 h
  exact (parts_of_windows hws).1.trans (min_le_right folds y.length)

end Folds

end Infill
