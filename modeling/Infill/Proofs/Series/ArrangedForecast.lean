import Infill.Proofs.Linear.ColumnOrder
import Infill.Proofs.Series.JointFit

/-! Forecasts of the joint model for series and covariates that stand in another order. Every block of
regressors, the covariates, the values of one time or the innovations of one time, is rearranged on
its own, and the coefficients with it. Then every step of the model is the rearranged step, whether
it takes in the sample or goes ahead of it. -/

namespace Infill

variable {α : Type}

/-- The order of `n` blocks, one behind the other, that are rearranged in the same way. -/
def blockOrder (τ : List Nat) : Nat → List Nat
  | 0 => []
  | n + 1 => τ ++ (blockOrder τ n).map (τ.length + ·)

section Blocks

variable {count : Nat} {τ : List Nat}

theorem arranges_blockOrder (hτ : Arranges count τ) (n : Nat) :
    Arranges (n * count) (blockOrder τ n) := by
  induction n with
  | zero => rw [Nat.zero_mul, blockOrder, Arranges, List.range_zero]
  | succ n ih =>
    rw [Nat.succ_mul, Nat.add_comm, blockOrder, hτ.length]
    exact hτ.append ih

theorem pick_blockOrder (hτ : Arranges count τ) {blocks : List (List α)}
    (h : ∀ block ∈ blocks, block.length = count) :
    pick (blockOrder τ blocks.length) blocks.flatten = (blocks.map (pick τ)).flatten := by
  induction blocks with
  | nil => rfl
  | cons block blocks ih =>
    obtain ⟨hblock, hblocks⟩ := List.forall_mem_cons.1 h
    have hτ' : Arranges block.length τ := hblock ▸ hτ
    rw [List.length_cons, blockOrder, hτ'.length, List.flatten_cons, hτ'.pick_append, ih hblocks,
      List.map_cons, List.flatten_cons]

theorem length_flatten_blocks {blocks : List (List α)} (h : ∀ block ∈ blocks, block.length = count) :
    blocks.flatten.length = blocks.length * count := by
  rw [List.length_flatten, List.map_congr_left h, List.map_const', List.sum_replicate,
    smul_eq_mul]

end Blocks

def regressorOrder (σ τ : List Nat) (n : Nat) : List Nat :=
  σ ++ (blockOrder τ n).map (σ.length + ·)

theorem arranges_regressorOrder {k count : Nat} {σ τ : List Nat} (hσ : Arranges k σ)
    (hτ : Arranges count τ) (n : Nat) : Arranges (k + n * count) (regressorOrder σ τ n) := by
  rw [regressorOrder, hσ.length]
  exact hσ.append (arranges_blockOrder hτ n)

def Forecast.arranged (τ : List Nat) (f : Forecast α) : Forecast α := ⟨pick τ f.point⟩

theorem Forecast.isFinite_arranged [Scalar α] {f : Forecast α} {τ : List Nat}
    (hτ : Arranges f.point.length τ) : (f.arranged τ).isFinite = f.isFinite :=
  hτ.pick_perm.all_eq

/-- A pass that counts commutes with maps that each of its steps commutes with. -/
theorem mapIdx_map_eq {β γ β' γ' : Type} {g : β → β'} {h : γ → γ'} {f : Nat → β → γ}
    {f' : Nat → β' → γ'} {xs : List β}
    (hstep : ∀ t (ht : t < xs.length), f' t (g xs[t]) = h (f t xs[t])) :
    (xs.map g).mapIdx f' = (xs.mapIdx f).map h :=
  List.ext_getElem (by simp) fun t _ _ => by simpa using hstep t _

namespace JointMoment

def arranged (τ : List Nat) (moment : JointMoment α) : JointMoment α :=
  ⟨pick τ moment.values, pick τ moment.shocks⟩

/-- One value and one innovation of each of `count` series. -/
structure Sized (count : Nat) (moment : JointMoment α) : Prop where
  values : moment.values.length = count
  shocks : moment.shocks.length = count

end JointMoment

variable [Scalar α]

open LeastSquares (Fit)

section Reading

variable {count n : Nat} {τ : List Nat} {series : List (List α)}

theorem JointMoment.across_eq (hpresent : series ≠ []) (h : ∀ xs ∈ series, xs.length = n) :
    across series = (List.range n).map fun t => series.map (·.getD t 0) := by
  rw [across, Varmax.length_head hpresent h]

theorem JointMoment.across_arranged (hτ : Arranges series.length τ) (hpresent : series ≠ [])
    (h : ∀ xs ∈ series, xs.length = n) :
    across (pick τ series) = (across series).map (pick τ) := by
  have hpick : ∀ xs ∈ pick τ series, xs.length = n := fun xs hxs => h xs (mem_of_mem_pick hxs)
  rw [across_eq hpresent h, across_eq (hτ.pick_ne_nil hpresent) hpick, List.map_map]
  exact List.map_congr_left fun t _ => (pick_map τ _ series).symm

theorem JointMoment.along_arranged (hτ : Arranges count τ) {rows : List (List α)}
    (h : ∀ row ∈ rows, row.length = count) :
    along count (rows.map (pick τ)) = pick τ (along count rows) := by
  refine List.ext_getElem? fun j => ?_
  have hwithin : Within (along count rows).length τ := by simpa [along] using hτ.within
  rw [getElem?_pick hwithin]
  by_cases hj : j < count
  · have hj' : j < τ.length := hτ.length ▸ hj
    have hposition : τ[j]? = some τ[j] := List.getElem?_eq_getElem hj'
    have hlt : τ[j] < count := hτ.within _ (List.getElem_mem hj')
    have hrow : ∀ row ∈ rows, (pick τ row).getD j 0 = row.getD τ[j] 0 := by
      intro row hrow
      rw [List.getD_eq_getElem?_getD, getElem?_pick (h row hrow ▸ hτ.within), hposition]
      rfl
    rw [hposition]
    simpa [along, hj, hlt] using hrow
  · have hend : τ[j]? = none := List.getElem?_eq_none (hτ.length ▸ Nat.le_of_not_lt hj)
    rw [hend]
    simpa [along] using hj

omit [Scalar α] in
theorem Varmax.covariatesAt_arranged (σ : List Nat) (exog : List (List α)) (t : Nat) :
    covariatesAt (exog.map (pick σ)) t = pick σ (covariatesAt exog t) := by
  rw [covariatesAt, covariatesAt, List.getD_eq_getElem?_getD, List.getD_eq_getElem?_getD,
    List.getElem?_map]
  cases exog[t]? <;> simp

end Reading

namespace Varmax

section Regressors

variable {k count p q : Nat} {σ τ : List Nat} {means covariates : List α}
  {past : List (JointMoment α)}

/-- The regressors behind the covariates, one block for every lag. -/
def lagBlocks (means : List α) (p q : Nat) (past : List (JointMoment α)) : List (List α) :=
  (List.range p).map (fun i => ((past[i]?).map (·.values)).getD means)
    ++ (List.range q).map fun i => ((past[i]?).map (·.shocks)).getD (means.map fun _ => 0)

theorem length_lagBlocks : (lagBlocks means p q past).length = p + q := by simp [lagBlocks]

theorem regressors_eq :
    regressors means p q covariates past = covariates ++ (lagBlocks means p q past).flatten := by
  rw [regressors, lagBlocks, List.flatten_append, List.append_assoc, List.flatMap_def,
    List.flatMap_def]

/-- What holds of the means, of zeros and of the past holds of all blocks. -/
theorem forall_lagBlocks {P : List α → Prop} (hmeans : P means) (hzero : P (means.map fun _ => 0))
    (hvalues : ∀ moment ∈ past, P moment.values)
    (hshocks : 0 < q → ∀ moment ∈ past, P moment.shocks) :
    ∀ block ∈ lagBlocks means p q past, P block := by
  intro block hblock
  rcases List.mem_append.1 hblock with h | h
  · obtain ⟨i, -, rfl⟩ := List.mem_map.1 h
    cases hi : past[i]? with
    | none => exact hmeans
    | some moment => exact hvalues moment (List.mem_of_getElem? hi)
  · obtain ⟨i, hlt, rfl⟩ := List.mem_map.1 h
    cases hi : past[i]? with
    | none => exact hzero
    | some moment =>
      exact hshocks (Nat.zero_lt_of_lt (List.mem_range.1 hlt)) moment (List.mem_of_getElem? hi)

theorem lagBlocks_arranged : lagBlocks (pick τ means) p q (past.map (.arranged τ)) =
    (lagBlocks means p q past).map (pick τ) := by
  have hvalues : ∀ i : Nat, (((past.map (.arranged τ))[i]?).map JointMoment.values).getD (pick τ means) =
      pick τ (((past[i]?).map (·.values)).getD means) := fun i => by
    rw [List.getElem?_map]
    cases past[i]? <;> rfl
  have hshocks : ∀ i : Nat, (((past.map (.arranged τ))[i]?).map JointMoment.shocks).getD
      ((pick τ means).map fun _ => 0) =
        pick τ (((past[i]?).map (·.shocks)).getD (means.map fun _ => 0)) := fun i => by
    rw [List.getElem?_map, ← pick_map]
    cases past[i]? <;> rfl
  rw [lagBlocks, lagBlocks, List.map_append, List.map_map, List.map_map]
  simp only [hvalues, hshocks, Function.comp_def]

/-- Blocks of one length, behind the covariates. -/
theorem length_regressors (h : ∀ block ∈ lagBlocks means p q past, block.length = count) :
    (regressors means p q covariates past).length = covariates.length + (p + q) * count := by
  rw [regressors_eq, List.length_append, length_flatten_blocks h, length_lagBlocks]

theorem regressors_arranged (hσ : Arranges covariates.length σ) (hτ : Arranges count τ)
    (h : ∀ block ∈ lagBlocks means p q past, block.length = count) :
    regressors (pick τ means) p q (pick σ covariates) (past.map (.arranged τ)) =
      pick (regressorOrder σ τ (p + q)) (regressors means p q covariates past) := by
  have hblocks := pick_blockOrder hτ h
  rw [length_lagBlocks] at hblocks
  rw [regressors_eq, regressors_eq, lagBlocks_arranged, regressorOrder, hσ.length, hσ.pick_append,
    hblocks]

end Regressors

section Equations

variable {τ ρ : List Nat} {equations : List (Fit α)} {row values : List α}

theorem shocksOf_eq : shocksOf equations row values =
    List.zipWith (· - ·) values (equations.map (·.predict row)) := by
  rw [shocksOf, List.zipWith_map_right]

variable [Scalar.SumsUnordered α]

theorem predictions_arranged (hρ : Arranges row.length ρ)
    (h : ∀ eq ∈ equations, eq.coefficients.length = row.length) :
    (pick τ (equations.map (Fit.arranged ρ))).map (·.predict (pick ρ row)) =
      pick τ (equations.map (·.predict row)) := by
  rw [← pick_map, List.map_map]
  exact congrArg (pick τ) (List.map_congr_left fun eq heq => Fit.predict_arranged hρ (h eq heq))

theorem shocksOf_arranged (hρ : Arranges row.length ρ)
    (h : ∀ eq ∈ equations, eq.coefficients.length = row.length)
    (hτ : Arranges values.length τ) (hlength : equations.length = values.length) :
    shocksOf (pick τ (equations.map (Fit.arranged ρ))) (pick ρ row) (pick τ values) =
      pick τ (shocksOf equations row values) := by
  rw [shocksOf_eq, shocksOf_eq, predictions_arranged hρ h,
    pick_zipWith _ (by rw [List.length_map, hlength]) hτ.within]

end Equations

def arranged (σ τ : List Nat) (m : Varmax α) : Varmax α :=
  { m with
    means := pick τ m.means
    equations := pick τ (m.equations.map (Fit.arranged (regressorOrder σ τ (m.p + m.q))))
    endog := pick τ m.endog
    exog := m.exog.map (pick σ) }

/-- A model of `count` series of `n` values. Each of them has a mean and an equation with a
coefficient for every regressor, and every time of the sample has its covariates. -/
structure Sized (m : Varmax α) (count n : Nat) : Prop where
  pos : 0 < count
  means : m.means.length = count
  equations : m.equations.length = count
  coefficients : ∀ eq ∈ m.equations,
    eq.coefficients.length = m.covariateCount + (m.p + m.q) * count
  endog : m.endog.length = count
  series : ∀ xs ∈ m.endog, xs.length = n
  covariates : ∀ t < n, (covariatesAt m.exog t).length = m.covariateCount

section Models

variable {m : Varmax α} {count n : Nat} {σ τ : List Nat} {past : List (JointMoment α)}

namespace Sized

theorem lagBlocks (hm : m.Sized count n) (hpast : ∀ moment ∈ past, moment.Sized count) :
    ∀ block ∈ Varmax.lagBlocks m.means m.p m.q past, block.length = count :=
  forall_lagBlocks hm.means (by rw [List.length_map, hm.means])
    (fun moment hmoment => (hpast moment hmoment).values)
    fun _ moment hmoment => (hpast moment hmoment).shocks

omit [Scalar α] in
theorem endog_ne_nil (hm : m.Sized count n) : m.endog ≠ [] :=
  List.ne_nil_of_length_pos (hm.endog.symm ▸ hm.pos)

omit [Scalar α] in
theorem equations_ne_nil (hm : m.Sized count n) : m.equations ≠ [] :=
  List.ne_nil_of_length_pos (hm.equations.symm ▸ hm.pos)

theorem coefficients_eq (hm : m.Sized count n) (hpast : ∀ moment ∈ past, moment.Sized count)
    {covariates : List α} (hcovariates : covariates.length = m.covariateCount) :
    ∀ eq ∈ m.equations, eq.coefficients.length =
      (regressors m.means m.p m.q covariates past).length := by
  rw [length_regressors (hm.lagBlocks hpast), hcovariates]
  exact hm.coefficients

theorem observe (hm : m.Sized count n) (hpast : ∀ moment ∈ past, moment.Sized count)
    {now : List α × List α} (hnow : now.1.length = count) :
    ∀ moment ∈ m.observe past now, moment.Sized count := by
  refine List.forall_mem_cons.2 ⟨⟨hnow, ?_⟩, hpast⟩
  dsimp only
  split_ifs
  · rw [List.length_map, hnow]
  · rw [shocksOf, List.length_zipWith, hnow, hm.equations, Nat.min_self]

theorem length_predictNext (hm : m.Sized count n) (covariates : List α)
    (past : List (JointMoment α)) :
    (m.predictNext covariates past).length = count := by
  rw [predictNext, List.length_map, hm.equations]

theorem across_values (hm : m.Sized count n) :
    ∀ values ∈ JointMoment.across m.endog, values.length = count := by
  intro values hvalues
  obtain ⟨t, -, rfl⟩ := List.mem_map.1 hvalues
  rw [List.length_map, hm.endog]

theorem length_across (hm : m.Sized count n) : (JointMoment.across m.endog).length = n := by
  rw [JointMoment.across_eq hm.endog_ne_nil hm.series, List.length_map, List.length_range]

end Sized

theorem arranges_regressors {covariates : List α} (hm : m.Sized count n)
    (hpast : ∀ moment ∈ past, moment.Sized count) (hσ : Arranges m.covariateCount σ)
    (hτ : Arranges count τ) (hcovariates : covariates.length = m.covariateCount) :
    Arranges (regressors m.means m.p m.q covariates past).length
      (regressorOrder σ τ (m.p + m.q)) := by
  rw [length_regressors (hm.lagBlocks hpast), hcovariates]
  exact arranges_regressorOrder hσ hτ _

variable [Scalar.SumsUnordered α]

theorem predictNext_arranged (hm : m.Sized count n) (hσ : Arranges m.covariateCount σ)
    (hτ : Arranges count τ) (hpast : ∀ moment ∈ past, moment.Sized count) {covariates : List α}
    (hcovariates : covariates.length = m.covariateCount) :
    (m.arranged σ τ).predictNext (pick σ covariates) (past.map (.arranged τ)) =
      pick τ (m.predictNext covariates past) := by
  have hrow := regressors_arranged (hcovariates ▸ hσ) hτ (hm.lagBlocks hpast)
  unfold predictNext arranged
  dsimp only
  rw [hrow]
  exact predictions_arranged (arranges_regressors hm hpast hσ hτ hcovariates)
    (hm.coefficients_eq hpast hcovariates)

theorem observe_arranged (hm : m.Sized count n) (hσ : Arranges m.covariateCount σ)
    (hτ : Arranges count τ) (hpast : ∀ moment ∈ past, moment.Sized count) {now : List α × List α}
    (hvalues : now.1.length = count) (hcovariates : now.2.length = m.covariateCount) :
    (m.arranged σ τ).observe (past.map (.arranged τ)) (pick τ now.1, pick σ now.2) =
      (m.observe past now).map (.arranged τ) := by
  have hrow := regressors_arranged (hcovariates ▸ hσ) hτ (hm.lagBlocks hpast)
  have hnow : Arranges now.1.length τ := hvalues ▸ hτ
  have hshocks := shocksOf_arranged (arranges_regressors hm hpast hσ hτ hcovariates)
    (hm.coefficients_eq hpast hcovariates) hnow (hm.equations.trans hvalues.symm)
  unfold observe arranged
  dsimp only
  rw [hrow, hshocks, List.length_map, List.map_cons, JointMoment.arranged, ← pick_map]
  split_ifs <;> rfl

theorem foldl_observe_arranged (hm : m.Sized count n) (hσ : Arranges m.covariateCount σ)
    (hτ : Arranges count τ) {rows : List (List α × List α)}
    (hrows : ∀ now ∈ rows, now.1.length = count ∧ now.2.length = m.covariateCount)
    (hpast : ∀ moment ∈ past, moment.Sized count) :
    (rows.map fun now => (pick τ now.1, pick σ now.2)).foldl (m.arranged σ τ).observe
        (past.map (.arranged τ)) = (rows.foldl m.observe past).map (.arranged τ) ∧
      ∀ moment ∈ rows.foldl m.observe past, moment.Sized count := by
  induction rows generalizing past with
  | nil => exact ⟨rfl, hpast⟩
  | cons now rows ih =>
    obtain ⟨⟨hvalues, hcovariates⟩, hrest⟩ := List.forall_mem_cons.1 hrows
    rw [List.map_cons, List.foldl_cons, List.foldl_cons,
      observe_arranged hm hσ hτ hpast hvalues hcovariates]
    exact ih hrest (hm.observe hpast hvalues)

theorem history_arranged (hm : m.Sized count n) (hσ : Arranges m.covariateCount σ)
    (hτ : Arranges count τ) (length : Nat) :
    (m.arranged σ τ).history length = (m.history length).map (.arranged τ) ∧
      ∀ moment ∈ m.history length, moment.Sized count := by
  have hacross := JointMoment.across_arranged (hm.endog ▸ hτ) hm.endog_ne_nil hm.series
  have hsame : ((JointMoment.across (m.arranged σ τ).endog).take length).mapIdx
      (fun t values => (values, covariatesAt (m.arranged σ τ).exog t)) =
        (((JointMoment.across m.endog).take length).mapIdx fun t values =>
          (values, covariatesAt m.exog t)).map fun now => (pick τ now.1, pick σ now.2) := by
    rw [arranged, hacross, ← List.map_take]
    exact mapIdx_map_eq fun t _ => by rw [covariatesAt_arranged]
  rw [history, history, hsame]
  have hempty : ∀ moment ∈ ([] : List (JointMoment α)), moment.Sized count := List.forall_mem_nil _
  refine foldl_observe_arranged hm hσ hτ ?_ hempty
  intro now hnow
  obtain ⟨t, ht, rfl⟩ := List.mem_mapIdx.1 hnow
  rw [List.length_take, hm.length_across] at ht
  exact ⟨hm.across_values _ (List.mem_of_mem_take (List.getElem_mem _)),
    hm.covariates t (by omega)⟩

theorem ahead_arranged (hm : m.Sized count n) (hσ : Arranges m.covariateCount σ)
    (hτ : Arranges count τ) {rows : List (List α)}
    (hrows : ∀ row ∈ rows, row.length = m.covariateCount)
    (hpast : ∀ moment ∈ past, moment.Sized count) :
    (m.arranged σ τ).ahead (past.map (.arranged τ)) (rows.map (pick σ)) =
      (m.ahead past rows).map (pick τ) := by
  induction rows generalizing past with
  | nil => rfl
  | cons covariates rest ih =>
    obtain ⟨hcovariates, hrest⟩ := List.forall_mem_cons.1 hrows
    have hlength := hm.length_predictNext covariates past
    have hsized : JointMoment.Sized count ⟨m.predictNext covariates past,
        (m.predictNext covariates past).map fun _ => 0⟩ :=
      ⟨hlength, by rw [List.length_map, hlength]⟩
    have hnext := ih hrest (List.forall_mem_cons.2 ⟨hsized, hpast⟩)
    rw [List.map_cons, ahead, ahead, predictNext_arranged hm hσ hτ hpast hcovariates, List.map_cons,
      ← pick_map, ← hnext]
    rfl

omit [Scalar.SumsUnordered α] in
theorem length_ahead_rows (hm : m.Sized count n) (past : List (JointMoment α))
    (rows : List (List α)) : ∀ values ∈ m.ahead past rows, values.length = count := by
  induction rows generalizing past with
  | nil => exact List.forall_mem_nil _
  | cons covariates rest ih =>
    exact List.forall_mem_cons.2 ⟨hm.length_predictNext covariates past, ih _⟩

omit [Scalar α] [Scalar.SumsUnordered α] in
theorem observations_eq (hequations : m.equations ≠ []) (hendog : m.endog ≠ [])
    (hseries : ∀ xs ∈ m.endog, xs.length = n) : m.observations = some n := by
  obtain ⟨xs, rest, hsplit⟩ := List.exists_cons_of_ne_nil hendog
  have hlength := hseries xs (hsplit ▸ List.mem_cons_self)
  rw [observations, if_neg (mt List.isEmpty_iff.1 hequations), hsplit, List.head?_cons,
    Option.map_some, hlength]

omit [Scalar α] [Scalar.SumsUnordered α] in
theorem observations_arranged (hm : m.Sized count n) (hτ : Arranges count τ) :
    (m.arranged σ τ).observations = some n := by
  have hequations : Arranges (m.equations.map (Fit.arranged (regressorOrder σ τ (m.p + m.q)))).length
      τ := by rwa [List.length_map, hm.equations]
  refine observations_eq (hequations.pick_ne_nil ?_) ?_ ?_
  · exact mt List.map_eq_nil_iff.1 hm.equations_ne_nil
  · exact Arranges.pick_ne_nil (hm.endog ▸ hτ) hm.endog_ne_nil
  · exact fun xs hxs => hm.series xs (mem_of_mem_pick hxs)

omit [Scalar α] [Scalar.SumsUnordered α] in
theorem futureRows_arranged (horizon : Nat) (future : List (List α)) :
    (m.arranged σ τ).futureRows horizon (future.map (pick σ)) =
      (m.futureRows horizon future).map (pick σ) := by
  rw [futureRows, futureRows, List.map_map]
  refine List.map_congr_left fun i _ => ?_
  rw [Function.comp_apply, apply_ite (pick σ), covariatesAt_arranged, pick_nil]
  rfl

omit [Scalar α] [Scalar.SumsUnordered α] in
theorem length_of_mem_futureRows {horizon : Nat} {future : List (List α)}
    (hfuture : ∀ row ∈ future, row.length = m.covariateCount)
    (henough : 0 < m.covariateCount → horizon ≤ future.length) :
    ∀ row ∈ m.futureRows horizon future, row.length = m.covariateCount := by
  intro row hrow
  obtain ⟨i, hi, rfl⟩ := List.mem_map.1 hrow
  split_ifs with hcovered
  · have hlt : i < future.length := by
      have := List.mem_range.1 hi
      have := henough hcovered
      omega
    rw [covariatesAt, List.getD_eq_getElem?_getD, List.getElem?_eq_getElem hlt]
    exact hfuture _ (List.getElem_mem hlt)
  · exact (Nat.eq_zero_of_not_pos hcovered).symm

/-- The rearranged model predicts the rearranged series, and fails where the model fails. -/
theorem forecastFrom_arranged (hm : m.Sized count n) (hσ : Arranges m.covariateCount σ)
    (hτ : Arranges count τ) (history horizon : Nat) {future : List (List α)}
    (hfuture : ∀ row ∈ future, row.length = m.covariateCount) :
    (m.arranged σ τ).forecastFrom history horizon (future.map (pick σ)) =
      (m.forecastFrom history horizon future).map (Forecast.arranged τ) := by
  have hcovered : (m.arranged σ τ).covariateCount = m.covariateCount := rfl
  have hobserved := observations_eq hm.equations_ne_nil hm.endog_ne_nil hm.series
  have hendog : (m.arranged σ τ).endog.length = count :=
    (Arranges.length_pick (hm.endog ▸ hτ)).trans hm.endog
  unfold forecastFrom
  rw [hobserved, observations_arranged hm hτ]
  dsimp only
  rw [hcovered, List.length_map, hendog, hm.endog]
  by_cases hhistory : (decide (history = 0) || decide (n < history)) = true
  · rw [if_pos hhistory, if_pos hhistory]
    rfl
  rw [if_neg hhistory, if_neg hhistory]
  by_cases hshort : (decide (0 < m.covariateCount) && decide (future.length < horizon)) = true
  · rw [if_pos hshort, if_pos hshort]
    rfl
  rw [if_neg hshort, if_neg hshort]
  obtain ⟨hpast, hsized⟩ := history_arranged hm hσ hτ history
  have hrows : ∀ row ∈ m.futureRows horizon future, row.length = m.covariateCount :=
    length_of_mem_futureRows hfuture (by simpa using hshort)
  have hdimensions : Arranges (JointMoment.along count
      (m.ahead (m.history history) (m.futureRows horizon future))).length τ := by
    simpa [JointMoment.along] using hτ
  rw [futureRows_arranged, hpast, ahead_arranged hm hσ hτ hrows hsized,
    JointMoment.along_arranged hτ (length_ahead_rows hm _ _)]
  generalize JointMoment.along count
    (m.ahead (m.history history) (m.futureRows horizon future)) = point at hdimensions ⊢
  have hfinite : (⟨pick τ point⟩ : Forecast α).isFinite = (⟨point⟩ : Forecast α).isFinite :=
    Forecast.isFinite_arranged hdimensions
  rw [hfinite]
  split_ifs <;> rfl

end Models

end Varmax
end Infill
