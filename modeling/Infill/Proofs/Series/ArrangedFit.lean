import Infill.Proofs.Series.ArrangedForecast
import Infill.Proofs.Series.LoneFit

/-! The joint model fitted to series and covariates that stand in another order, in exact arithmetic with
true roots. Both of its stages regress rearranged targets on rearranged regressors, so that each finds
the rearranged fits: the innovations of the first stage are rearranged with the series, and the model
that the second one stores is the rearranged model. -/

namespace Infill

namespace Past

variable {β : Type} {xs : List β}

theorem length_each (xs : List β) : (each xs).length = xs.length := by
  rw [← List.length_map (·.2), map_snd_each]

theorem mem_of_mem_each {e : List β × β} (he : e ∈ each xs) {x : β} (hx : x ∈ e.1) : x ∈ xs := by
  have key : ∀ past : List β, e ∈ eachAfter past xs → x ∈ past ∨ x ∈ xs := by
    clear he
    induction xs with
    | nil => exact fun past he => absurd he List.not_mem_nil
    | cons y xs ih =>
      intro past he
      rcases List.mem_cons.1 he with rfl | he
      · exact .inl hx
      · rcases ih (y :: past) he with h | h
        · rcases List.mem_cons.1 h with rfl | h
          · exact .inr List.mem_cons_self
          · exact .inl h
        · exact .inr (List.mem_cons_of_mem y h)
  exact (key [] he).resolve_left List.not_mem_nil

end Past

open Exact (NumbersOf Numbers)
open LeastSquares (Fit fitAll)

variable {K : Type} [ExactNumber K]

theorem Exact.NumbersOf.flatten {n : Nat} {blocks : List (List (Exact K))}
    (h : ∀ block ∈ blocks, NumbersOf n block) : NumbersOf (blocks.length * n) blocks.flatten := by
  refine ⟨length_flatten_blocks fun block hblock => (h block hblock).1, fun x hx => ?_⟩
  obtain ⟨block, hblock, hx⟩ := List.mem_flatten.1 hx
  exact (h block hblock).2 x hx

namespace Varmax

/-- `n` numbers in each of the series, and `k` numbers as the covariates of every time, where there are
covariates. -/
structure Sample (series exog : List (List (Exact K))) (k n : Nat) : Prop where
  pos : 0 < n
  present : series ≠ []
  series : ∀ xs ∈ series, NumbersOf n xs
  rows : ∀ row ∈ exog, NumbersOf k row
  covered : exog.length = n ∨ exog = [] ∧ k = 0

namespace Sample

variable {series exog : List (List (Exact K))} {k n : Nat}

theorem covariates (h : Sample series exog k n) {t : Nat} (ht : t < n) :
    NumbersOf k (covariatesAt exog t) := by
  rcases h.covered with hlength | ⟨rfl, rfl⟩
  · rw [covariatesAt, List.getD_eq_getElem?_getD, List.getElem?_eq_getElem (hlength ▸ ht)]
    exact h.rows _ (List.getElem_mem _)
  · exact ⟨rfl, List.forall_mem_nil _⟩

theorem lengths (h : Sample series exog k n) : ∀ xs ∈ series, xs.length = n := fun xs hxs =>
  (h.series xs hxs).1

theorem reverse (h : Sample series exog k n) :
    Sample (series.map List.reverse) exog.reverse k n where
  pos := h.pos
  present := mt List.map_eq_nil_iff.1 h.present
  series := by
    rw [List.forall_mem_map]
    exact fun xs hxs => (h.series xs hxs).reverse
  rows row hrow := h.rows row (List.mem_reverse.1 hrow)
  covered := by simpa using h.covered

theorem means (h : Sample series exog k n) :
    NumbersOf series.length (series.map Scalar.mean) := by
  refine ⟨List.length_map _, ?_⟩
  rw [Exact.Numbers, List.forall_mem_map]
  exact fun xs hxs => (h.series xs hxs).isFinite_mean h.pos

theorem across_eq (h : Sample series exog k n) :
    JointMoment.across series = (List.range n).map fun t => series.map (·.getD t 0) :=
  JointMoment.across_eq h.present h.lengths

theorem length_across (h : Sample series exog k n) : (JointMoment.across series).length = n := by
  rw [h.across_eq, List.length_map, List.length_range]

theorem across (h : Sample series exog k n) :
    ∀ values ∈ JointMoment.across series, NumbersOf series.length values := by
  rw [h.across_eq, List.forall_mem_map]
  refine fun t ht => ⟨List.length_map _, ?_⟩
  rw [Exact.Numbers, List.forall_mem_map]
  intro xs hxs
  have hlt : t < xs.length := (h.series xs hxs).1 ▸ List.mem_range.1 ht
  rw [List.getD_eq_getElem?_getD, List.getElem?_eq_getElem hlt]
  exact (h.series xs hxs).2 _ (List.getElem_mem _)

theorem across_arranged (h : Sample series exog k n) {τ : List Nat} (hτ : Arranges series.length τ) :
    JointMoment.across (pick τ series) = (JointMoment.across series).map (pick τ) :=
  JointMoment.across_arranged hτ h.present h.lengths

end Sample

section Rows

def laggedRows {α : Type} [Scalar α] (means : List α) (p q : Nat) (exog : List (List α))
    (moments : List (JointMoment α)) : List (List α) :=
  (Past.each moments).mapIdx fun t e => regressors means p q (covariatesAt exog t) e.1

theorem length_laggedRows {α : Type} [Scalar α] (means : List α) (p q : Nat) (exog : List (List α))
    (moments : List (JointMoment α)) :
    (laggedRows means p q exog moments).length = moments.length := by
  rw [laggedRows, List.length_mapIdx, Past.length_each]

/-- The numbers that regressors are taken from: of `count` series, with `k` covariates. Without lags of
innovations there need not be any. -/
structure Regressed (means : List (Exact K)) (q : Nat) (exog : List (List (Exact K)))
    (moments : List (JointMoment (Exact K))) (k count : Nat) : Prop where
  means : NumbersOf count means
  covariates : ∀ t < moments.length, NumbersOf k (covariatesAt exog t)
  values : ∀ moment ∈ moments, NumbersOf count moment.values
  shocks : 0 < q → ∀ moment ∈ moments, NumbersOf count moment.shocks

namespace Regressed

variable {means : List (Exact K)} {q : Nat} {exog : List (List (Exact K))}
  {moments : List (JointMoment (Exact K))} {k count : Nat} {σ τ : List Nat}

theorem lagBlocks (h : Regressed means q exog moments k count)
    {e : List (JointMoment (Exact K)) × JointMoment (Exact K)} (he : e ∈ Past.each moments)
    (p : Nat) : ∀ block ∈ Varmax.lagBlocks means p q e.1, NumbersOf count block :=
  forall_lagBlocks h.means (.zeros h.means.1)
    (fun moment hmoment => h.values moment (Past.mem_of_mem_each he hmoment))
    fun hq moment hmoment => h.shocks hq moment (Past.mem_of_mem_each he hmoment)

theorem rows (h : Regressed means q exog moments k count) (p : Nat) :
    ∀ row ∈ laggedRows means p q exog moments, NumbersOf (k + (p + q) * count) row := by
  intro row hrow
  obtain ⟨t, ht, rfl⟩ := List.mem_mapIdx.1 hrow
  have hblocks := Exact.NumbersOf.flatten (h.lagBlocks (List.getElem_mem ht) p)
  rw [length_lagBlocks] at hblocks
  rw [regressors_eq]
  exact (h.covariates t (Past.length_each moments ▸ ht)).append hblocks

theorem rows_arranged (h : Regressed means q exog moments k count) (hσ : Arranges k σ)
    (hτ : Arranges count τ) (p : Nat) :
    laggedRows (pick τ means) p q (exog.map (pick σ)) (moments.map (.arranged τ)) =
      (laggedRows means p q exog moments).map (pick (regressorOrder σ τ (p + q))) := by
  rw [laggedRows, Past.each_map]
  refine mapIdx_map_eq fun t ht => ?_
  have hcovariates := (h.covariates t (Past.length_each moments ▸ ht)).1
  rw [covariatesAt_arranged]
  exact regressors_arranged (hcovariates ▸ hσ) hτ fun block hblock =>
    (h.lagBlocks (List.getElem_mem _) p block hblock).1

end Regressed

end Rows

theorem shocksOf_numbers {equations : List (Fit (Exact K))} {width count : Nat}
    {row now : List (Exact K)} (hequations : equations.length = count)
    (hnumeric : ∀ eq ∈ equations, eq.Numeric width) (hrow : Numbers row)
    (hnow : NumbersOf count now) : NumbersOf count (shocksOf equations row now) := by
  rw [shocksOf_eq]
  refine ⟨by rw [List.length_zipWith, hnow.1, List.length_map, hequations, Nat.min_self], ?_⟩
  refine hnow.2.zipWith ?_ Exact.isFinite_sub
  rw [Exact.Numbers, List.forall_mem_map]
  exact fun eq heq => (hnumeric eq heq).predict hrow

section LongStage

variable {α : Type} [Scalar α]

def longRows (means : List α) (series exog : List (List α)) (long : Nat) : List (List α) :=
  laggedRows means long 0 exog ((JointMoment.across series).map (⟨·, []⟩))

/-- The first stage of a fit, behind the regression that it consists of. -/
theorem longInnovations_eq (means : List α) (series exog : List (List α)) (long : Nat) :
    longInnovations means series exog long =
      (fitAll ((longRows means series exog long).drop long) (series.map (·.drop long))).map
        fun equations => List.replicate long (means.map fun _ => 0) ++
          (((longRows means series exog long).drop long).zip
            ((JointMoment.across series).drop long)).map fun e => shocksOf equations e.1 e.2 := by
  let moments := (JointMoment.across series).map fun values => JointMoment.mk values []
  have hvalues : ((Past.each moments).map (·.2)).map (·.values) = JointMoment.across series := by
    rw [Past.map_snd_each, List.map_map]
    exact List.map_id _
  have hknown : ((Past.each moments).mapIdx fun t e =>
      (regressors means long 0 (covariatesAt exog t) e.1, e.2.values)) =
        (longRows means series exog long).zip (JointMoment.across series) := by
    rw [← hvalues]
    exact List.ext_getElem (by simp [longRows, laggedRows, moments])
      (by simp [longRows, laggedRows, moments])
  have hrows : ((longRows means series exog long).zip (JointMoment.across series)).map (·.1) =
      longRows means series exog long := by
    refine List.map_fst_zip ?_
    rw [longRows, length_laggedRows, List.length_map]
  unfold longInnovations
  dsimp only
  rw [hknown, List.map_drop, hrows, List.zip_eq_zipWith, List.drop_zipWith]
  rfl

end LongStage

section Stages

variable {series exog : List (List (Exact K))} {means : List (Exact K)} {k n : Nat} {σ τ : List Nat}

namespace Sample

theorem regressed_long (h : Sample series exog k n) (hmeans : NumbersOf series.length means) :
    Regressed means 0 exog ((JointMoment.across series).map (⟨·, []⟩)) k series.length where
  means := hmeans
  covariates t ht := h.covariates (by rwa [List.length_map, h.length_across] at ht)
  values := List.forall_mem_map.2 h.across
  shocks hq := absurd hq (Nat.lt_irrefl 0)

theorem targets (h : Sample series exog k n) {rows : List (List (Exact K))} (hrows : rows.length = n)
    (start : Nat) : ∀ y ∈ series.map (·.drop start), NumbersOf (rows.drop start).length y := by
  rw [List.length_drop, hrows, List.forall_mem_map]
  exact fun xs hxs => (h.series xs hxs).drop start

theorem length_longRows (h : Sample series exog k n) (means : List (Exact K)) (long : Nat) :
    (longRows means series exog long).length = n := by
  rw [longRows, length_laggedRows, List.length_map, h.length_across]

theorem longRows_numbers (h : Sample series exog k n) (hmeans : NumbersOf series.length means)
    (long start : Nat) : ∀ row ∈ (longRows means series exog long).drop start,
      NumbersOf (k + long * series.length) row :=
  fun row hrow => (h.regressed_long hmeans).rows long row (List.mem_of_mem_drop hrow)

theorem longRows_arranged (h : Sample series exog k n) (hmeans : NumbersOf series.length means)
    (hσ : Arranges k σ) (hτ : Arranges series.length τ) (long : Nat) :
    longRows (pick τ means) (pick τ series) (exog.map (pick σ)) long =
      (longRows means series exog long).map (pick (regressorOrder σ τ long)) := by
  have hmoments : (JointMoment.across (pick τ series)).map (JointMoment.mk · []) =
      ((JointMoment.across series).map (JointMoment.mk · [])).map (JointMoment.arranged τ) := by
    rw [h.across_arranged hτ, List.map_map, List.map_map]
    exact List.map_congr_left fun values _ => by simp [JointMoment.arranged]
  rw [longRows, hmoments]
  exact (h.regressed_long hmeans).rows_arranged hσ hτ long

/-- The first stage finds the rearranged innovations. -/
theorem longInnovations_arranged [TrueRoot K] (h : Sample series exog k n)
    (hmeans : NumbersOf series.length means) (hσ : Arranges k σ) (hτ : Arranges series.length τ)
    (long : Nat) : longInnovations (pick τ means) (pick τ series) (exog.map (pick σ)) long =
      (longInnovations means series exog long).map (List.map (pick τ)) := by
  have hρ := arranges_regressorOrder hσ hτ long
  have hrows := h.longRows_numbers hmeans long long
  have htargets := h.targets (h.length_longRows means long) long
  have horder : (pick τ series).map (·.drop long) = pick τ (series.map (·.drop long)) :=
    (pick_map τ _ series).symm
  rw [longInnovations_eq, longInnovations_eq, h.longRows_arranged hmeans hσ hτ, ← List.map_drop,
    horder, LeastSquares.fitAll_arranged hρ τ hrows htargets, h.across_arranged hτ, ← List.map_drop]
  cases hfits : fitAll ((longRows means series exog long).drop long)
      (series.map (·.drop long)) with
  | error e => rfl
  | ok equations =>
    obtain ⟨hlength, hnumeric⟩ := LeastSquares.fitAll_numeric hrows htargets hfits
    rw [List.length_map] at hlength
    refine congrArg Except.ok ?_
    dsimp only
    rw [List.map_append, List.map_replicate, ← pick_map, List.zip_map, List.map_map, List.map_map]
    -- At every time the equations follow the regressors, and the values follow the series.
    refine congrArg _ (List.map_congr_left fun e he => ?_)
    obtain ⟨hrow, hvalues⟩ := List.of_mem_zip he
    have hwidth := (hrows e.1 hrow).1
    have hcount := (h.across e.2 (List.mem_of_mem_drop hvalues)).1
    exact shocksOf_arranged (hwidth ▸ hρ)
      (fun eq heq => (hnumeric eq heq).coefficients.1.trans hwidth.symm) (hcount ▸ hτ)
      (hlength.trans hcount.symm)

theorem longInnovations_numbers [TrueRoot K] (h : Sample series exog k n)
    (hmeans : NumbersOf series.length means) {long : Nat} (hlong : long ≤ n)
    {innovations : List (List (Exact K))}
    (hstage : longInnovations means series exog long = .ok innovations) :
    innovations.length = n ∧ ∀ shocks ∈ innovations, NumbersOf series.length shocks := by
  have hrows := h.longRows_numbers hmeans long long
  have hlength := h.length_longRows means long
  rw [longInnovations_eq] at hstage
  obtain ⟨equations, hfits, rfl⟩ := map_ok_iff.1 hstage
  obtain ⟨hequations, hnumeric⟩ :=
    LeastSquares.fitAll_numeric hrows (h.targets hlength long) hfits
  rw [List.length_map] at hequations
  refine ⟨?_, List.forall_mem_append.2 ⟨?_, List.forall_mem_map.2 fun e he => ?_⟩⟩
  · rw [List.length_append, List.length_replicate, List.length_map, List.length_zip,
      List.length_drop, List.length_drop, hlength, h.length_across, Nat.min_self,
      Nat.add_sub_cancel' hlong]
  · intro shocks hshocks
    rw [List.eq_of_mem_replicate hshocks]
    exact .zeros hmeans.1
  · obtain ⟨hrow, hvalues⟩ := List.of_mem_zip he
    exact shocksOf_numbers hequations hnumeric (hrows e.1 hrow).2
      (h.across e.2 (List.mem_of_mem_drop hvalues))

theorem firstStage_arranged [TrueRoot K] (h : Sample series exog k n)
    (hmeans : NumbersOf series.length means) (hσ : Arranges k σ) (hτ : Arranges series.length τ)
    (p q : Nat) : firstStage (pick τ means) p q (pick τ series) (exog.map (pick σ)) n =
      (firstStage means p q series exog n).map fun stage => (stage.1.map (pick τ), stage.2) := by
  unfold firstStage
  dsimp only
  split_ifs with hq hshort
  · rw [← pick_map]
    simp [Except.map]
  · rfl
  · rw [h.longInnovations_arranged hmeans hσ hτ]
    cases longInnovations means series exog (2 * max p q) <;> rfl

theorem firstStage_numbers [TrueRoot K] (h : Sample series exog k n)
    (hmeans : NumbersOf series.length means) {p q : Nat} {stage : List (List (Exact K)) × Nat}
    (hstage : firstStage means p q series exog n = .ok stage) :
    stage.1.length = n ∧ ∀ shocks ∈ stage.1, NumbersOf series.length shocks := by
  unfold firstStage at hstage
  dsimp only at hstage
  split_ifs at hstage with hq hshort
  · obtain rfl := Except.ok.inj hstage
    refine ⟨List.length_replicate, fun shocks hshocks => ?_⟩
    rw [List.eq_of_mem_replicate hshocks]
    exact .zeros hmeans.1
  · obtain ⟨innovations, hlong, hpair⟩ := bind_ok_iff.1 hstage
    obtain rfl := pure_ok_iff.1 hpair
    exact h.longInnovations_numbers hmeans (by omega) hlong

end Sample

end Stages

section Solutions

variable {series exog : List (List (Exact K))} {k n : Nat} {σ τ : List Nat} {m : Varmax (Exact K)}

def momentsOf {α : Type} [Scalar α] (series innovations : List (List α)) : List (JointMoment α) :=
  List.zipWith .mk (JointMoment.across series) innovations

theorem solve_eq {α : Type} [Scalar α] (m : Varmax α) (series exog : List (List α)) :
    m.solve series exog =
      firstStage m.means m.p m.q series exog (series.head?.getD []).length >>= fun stage =>
        if (series.head?.getD []).length ≤ stage.2 then
          .error (.insufficientData (stage.2 + 1) (series.head?.getD []).length)
        else fitAll ((laggedRows m.means m.p m.q exog (momentsOf series stage.1)).drop stage.2)
          (series.map (·.drop stage.2)) := by
  unfold solve
  refine congrArg _ (funext fun stage => ?_)
  dsimp only
  split_ifs <;> rfl

namespace Sample

variable {innovations : List (List (Exact K))}

theorem regressed (h : Sample series exog k n) {means : List (Exact K)}
    (hmeans : NumbersOf series.length means) (q : Nat)
    (hinnovations : ∀ shocks ∈ innovations, NumbersOf series.length shocks) :
    Regressed means q exog (momentsOf series innovations) k series.length where
  means := hmeans
  covariates t ht := by
    rw [momentsOf, List.length_zipWith, h.length_across] at ht
    exact h.covariates (ht.trans_le (Nat.min_le_left _ _))
  values moment hmoment := by
    obtain ⟨i, hi⟩ := List.mem_iff_getElem?.1 hmoment
    obtain ⟨values, shocks, hvalues, -, rfl⟩ := List.getElem?_zipWith_eq_some.1 hi
    exact h.across values (List.mem_of_getElem? hvalues)
  shocks _ moment hmoment := by
    obtain ⟨i, hi⟩ := List.mem_iff_getElem?.1 hmoment
    obtain ⟨values, shocks, -, hshocks, rfl⟩ := List.getElem?_zipWith_eq_some.1 hi
    exact hinnovations shocks (List.mem_of_getElem? hshocks)

theorem momentsOf_arranged (h : Sample series exog k n) (hτ : Arranges series.length τ)
    (innovations : List (List (Exact K))) :
    momentsOf (pick τ series) (innovations.map (pick τ)) =
      (momentsOf series innovations).map (.arranged τ) := by
  rw [momentsOf, h.across_arranged hτ, List.zipWith_map, momentsOf, List.map_zipWith]
  rfl

theorem length_rows (h : Sample series exog k n) (hlength : innovations.length = n)
    (means : List (Exact K)) (p q : Nat) :
    (laggedRows means p q exog (momentsOf series innovations)).length = n := by
  rw [length_laggedRows, momentsOf, List.length_zipWith, h.length_across, hlength, Nat.min_self]

/-- The second stage finds the rearranged equations. -/
theorem solve_arranged [TrueRoot K] (h : Sample series exog k n)
    (hmeans : NumbersOf series.length m.means) (hσ : Arranges k σ) (hτ : Arranges series.length τ)
    {m' : Varmax (Exact K)} (hmeans' : m'.means = pick τ m.means) (hp : m'.p = m.p)
    (hq : m'.q = m.q) : m'.solve (pick τ series) (exog.map (pick σ)) =
      (m.solve series exog).map fun equations =>
        pick τ (equations.map (Fit.arranged (regressorOrder σ τ (m.p + m.q)))) := by
  have hhead := length_head h.present h.lengths
  have hhead' := length_head (hτ.pick_ne_nil h.present) fun xs hxs =>
    h.lengths xs (mem_of_mem_pick hxs)
  rw [solve_eq, solve_eq, hhead, hhead', hmeans', hp, hq, h.firstStage_arranged hmeans hσ hτ]
  cases hstage : firstStage m.means m.p m.q series exog n with
  | error e => rfl
  | ok stage =>
    obtain ⟨hlength, hinnovations⟩ := h.firstStage_numbers hmeans hstage
    have hregressed := h.regressed hmeans m.q hinnovations
    have hrows := h.length_rows hlength m.means m.p m.q
    have horder : (pick τ series).map (·.drop stage.2) = pick τ (series.map (·.drop stage.2)) :=
      (pick_map τ _ series).symm
    have hfits := LeastSquares.fitAll_arranged (arranges_regressorOrder hσ hτ (m.p + m.q)) τ
      (fun row hrow => hregressed.rows m.p row (List.mem_of_mem_drop hrow))
      (h.targets hrows stage.2)
    -- The innovations are rearranged with the series, and so are the rows that are made of them.
    rw [List.map_drop, ← hregressed.rows_arranged hσ hτ, ← h.momentsOf_arranged hτ, ← horder]
      at hfits
    dsimp only [Except.map, bind, Except.bind]
    split_ifs
    · rfl
    · exact hfits

theorem solve_numeric [TrueRoot K] (h : Sample series exog k n)
    (hmeans : NumbersOf series.length m.means) {equations : List (Fit (Exact K))}
    (hsolve : m.solve series exog = .ok equations) : equations.length = series.length ∧
      ∀ eq ∈ equations, eq.Numeric (k + (m.p + m.q) * series.length) := by
  rw [solve_eq, length_head h.present h.lengths] at hsolve
  obtain ⟨stage, hstage, hsolve⟩ := bind_ok_iff.1 hsolve
  obtain ⟨hlength, hinnovations⟩ := h.firstStage_numbers hmeans hstage
  have hrows := h.length_rows hlength m.means m.p m.q
  split_ifs at hsolve
  obtain ⟨hequations, hnumeric⟩ := LeastSquares.fitAll_numeric
    (fun row hrow => (h.regressed hmeans m.q hinnovations).rows m.p row (List.mem_of_mem_drop hrow))
    (h.targets hrows stage.2) hsolve
  exact ⟨by rw [hequations, List.length_map], hnumeric⟩

theorem covariateCount (h : Sample series exog k n) : (exog.head?.getD []).length = k := by
  rcases h.covered with hlength | ⟨rfl, rfl⟩
  · have hpresent : exog ≠ [] := List.ne_nil_of_length_pos (hlength ▸ h.pos)
    exact length_head hpresent fun row hrow => (h.rows row hrow).1
  · rfl

theorem sized (h : Sample series exog k n) {equations : List (Fit (Exact K))}
    (hlength : equations.length = series.length)
    (hnumeric : ∀ eq ∈ equations, eq.Numeric (k + (m.p + m.q) * series.length)) :
    ((m.prepare series).store equations series exog).Sized series.length n where
  pos := List.length_pos_iff.2 h.present
  means := h.means.1
  equations := hlength
  coefficients eq heq := by
    rw [(hnumeric eq heq).coefficients.1]
    exact congrArg (· + _) h.covariateCount.symm
  endog := rfl
  series := h.lengths
  covariates t ht := (h.covariates ht).1.trans h.covariateCount.symm

theorem store_arranged (h : Sample series exog k n) (hσ : Arranges k σ)
    (equations : List (Fit (Exact K))) :
    (m.prepare (pick τ series)).store
        (pick τ (equations.map (Fit.arranged (regressorOrder σ τ (m.p + m.q)))))
        (pick τ series) (exog.map (pick σ)) =
      ((m.prepare series).store equations series exog).arranged σ τ := by
  have hmeans : (pick τ series).map Scalar.mean = pick τ (series.map Scalar.mean) :=
    (pick_map τ _ series).symm
  have hcovered : ((exog.map (pick σ)).head?.getD []).length = (exog.head?.getD []).length := by
    cases exog with
    | nil => rfl
    | cons row rest =>
      exact Arranges.length_pick ((h.rows row List.mem_cons_self).1 ▸ hσ)
  unfold store prepare arranged
  rw [hmeans, hcovered]

end Sample

theorem isStable_arranged {α : Type} [Scalar α] [Scalar.SumsUnordered α] {m : Varmax α}
    {count n : Nat} {σ τ : List Nat} (hm : m.Sized count n) (hσ : Arranges m.covariateCount σ)
    (hτ : Arranges count τ) : (m.arranged σ τ).isStable = m.isStable := by
  have hhead := length_head hm.endog_ne_nil hm.series
  have hhead' := length_head (Arranges.pick_ne_nil (hm.endog ▸ hτ) hm.endog_ne_nil) fun xs hxs =>
    hm.series xs (mem_of_mem_pick hxs)
  obtain ⟨hhistory, hsized⟩ := history_arranged hm hσ hτ n
  have hlength : ((m.arranged σ τ).endog.head?.getD []).length = n := hhead'
  rw [isStable, isStable, hlength, hhead, hhistory, List.all_map, Bool.eq_iff_iff,
    List.all_eq_true, List.all_eq_true]
  refine forall₂_congr fun moment hmoment => ?_
  have hshocks : Arranges moment.shocks.length τ := (hsized moment hmoment).shocks ▸ hτ
  exact Bool.eq_iff_iff.1 hshocks.pick_perm.all_eq

theorem Sample.checkShape (h : Sample series exog k n) {p q : Nat} (hpq : ¬ (p = 0 ∧ q = 0)) :
    Varmax.checkShape p q series exog = .ok () :=
  checkShape_ok_iff.2 ⟨hpq, h.present, n, h.pos, h.lengths, h.covered.imp_right And.left⟩

theorem Sample.arranged (h : Sample series exog k n) (hσ : Arranges k σ)
    (hτ : Arranges series.length τ) : Sample (pick τ series) (exog.map (pick σ)) k n where
  pos := h.pos
  present := hτ.pick_ne_nil h.present
  series xs hxs := h.series xs (mem_of_mem_pick hxs)
  rows := by
    rw [List.forall_mem_map]
    intro row hrow
    obtain ⟨rfl, hnumbers⟩ := h.rows row hrow
    exact ⟨hσ.length_pick, fun x hx => hnumbers x (mem_of_mem_pick hx)⟩
  covered := by simpa using h.covered

structure Fitted (m : Varmax (Exact K)) (k n : Nat) : Prop where
  lags : ¬ (m.p = 0 ∧ m.q = 0)
  sample : Sample m.endog m.exog k n
  sized : m.Sized m.endog.length n
  covered : m.covariateCount = k

/-- A fit of rearranged series and covariates fails as the fit does, or stores the rearranged model. -/
theorem Sample.fit_arranged [TrueRoot K] (h : Sample series exog k n) (hσ : Arranges k σ)
    (hτ : Arranges series.length τ) (hpq : ¬ (m.p = 0 ∧ m.q = 0)) :
    (∃ e m₁ m₂, m.fit series exog = (m₁, some e) ∧
      m.fit (pick τ series) (exog.map (pick σ)) = (m₂, some e)) ∨
    ∃ m' : Varmax (Exact K), m.fit series exog = (m', none) ∧
      m.fit (pick τ series) (exog.map (pick σ)) = (m'.arranged σ τ, none) ∧
      m'.Fitted k n ∧ m'.endog = series := by
  have hmeans : (m.prepare (pick τ series)).means = pick τ (m.prepare series).means :=
    (pick_map τ _ series).symm
  rw [fit_shaped (h.checkShape hpq), fit_shaped ((h.arranged hσ hτ).checkShape hpq),
    h.solve_arranged (m := m.prepare series) h.means hσ hτ hmeans rfl rfl]
  cases hsolve : (m.prepare series).solve series exog with
  | error e => exact .inl ⟨e, _, _, rfl, rfl⟩
  | ok equations =>
    obtain ⟨hlength, hnumeric⟩ := h.solve_numeric (m := m.prepare series) h.means hsolve
    have hsized := h.sized (m := m) hlength hnumeric
    have hcovered : ((m.prepare series).store equations series exog).covariateCount = k :=
      h.covariateCount
    have hstable := isStable_arranged hsized (hcovered ▸ hσ) hτ
    have hstore := h.store_arranged (m := m) (τ := τ) hσ equations
    have hp : (m.prepare series).p = m.p := rfl
    have hq : (m.prepare series).q = m.q := rfl
    dsimp only [Except.map]
    rw [hp, hq, hstore, hstable]
    split_ifs
    · exact .inr ⟨_, rfl, rfl, ⟨hpq, h, hsized, hcovered⟩, rfl⟩
    · exact .inl ⟨_, _, _, rfl, rfl⟩

end Solutions

end Varmax
end Infill
