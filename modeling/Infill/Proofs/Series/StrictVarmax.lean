import Infill.Proofs.Series.ArrangedFit
import Infill.Proofs.Series.StrictArma

/-! Both stages of the joint model read data only. As for a single series, the strict fit is written by
times: it reads covariates of the time itself, values of all series at earlier times of the sample,
and innovations of times for which the first stage has estimated them. Of series and covariates that
pass the check of their shape it reads nothing else, and it refuses the others unread. So the means of
the series, which stand in for values in front of the sample, have no part in a fit. -/

namespace Infill.Varmax

variable {α : Type}

section Reading

def valuesBack (series : List (List α)) (t lag : Nat) : Except Stop (List α) :=
  series.mapM fun xs => entryBack 0 xs t lag

def strictCovariates (exog : List (List α)) (t : Nat) : Except Stop (List α) :=
  if exog.isEmpty then .ok [] else entryBack 0 exog t 0

/-- The regressors of time `t`: covariates, values of the sample, and innovations from time `first` on. -/
def strictRow (p q : Nat) (series exog : List (List α)) (first : Nat) (innovations : List (List α))
    (t : Nat) : Except Stop (List α) := do
  let covariates ← strictCovariates exog t
  let values ← (lagsTo p).mapM (valuesBack series t)
  let shocks ← (lagsTo q).mapM (entryBack first innovations t)
  return covariates ++ (values ++ shocks).flatten

/-- Series of `n` values, and covariates for each of their times or none at all. -/
structure Rectangular (series exog : List (List α)) (n : Nat) : Prop where
  present : series ≠ []
  series : ∀ xs ∈ series, xs.length = n
  covered : exog.length = n ∨ exog = []

theorem rectangular_of_checkShape {p q : Nat} {series exog : List (List α)}
    (h : checkShape p q series exog = .ok ()) : ∃ n, Rectangular series exog n := by
  obtain ⟨-, hpresent, n, -, hseries, hcovered⟩ := checkShape_ok_iff.1 h
  exact ⟨n, hpresent, hseries, hcovered⟩

end Reading

variable [Scalar α]

open LeastSquares (Fit fitAll)

def strictInnovations (series exog : List (List α)) (long : Nat) :
    Except Stop (List (List α)) := do
  let times := timesFrom long (series.head?.getD []).length
  let rows ← times.mapM (strictRow long 0 series exog 0 [])
  let values ← times.mapM (valuesBack series · 0)
  let equations ← Stop.ofErrors (fitAll rows (series.map (·.drop long)))
  return List.zipWith (shocksOf equations) rows values

def longLag (p q : Nat) : Nat := 2 * max p q

def secondStart (p q : Nat) : Nat := if q = 0 then p else max p (longLag p q + q)

def strictFirstStage (p q : Nat) (series exog : List (List α)) (count : Nat) :
    Except Stop (List (List α)) :=
  if q = 0 then .ok []
  else if count ≤ longLag p q then .error (.error (.insufficientData (longLag p q + 1) count))
  else strictInnovations series exog (longLag p q)

def strictSolve (p q : Nat) (series exog : List (List α)) : Except Stop (List (Fit α)) := do
  let count := (series.head?.getD []).length
  let innovations ← strictFirstStage p q series exog count
  let start := secondStart p q
  if count ≤ start then throw (.error (.insufficientData (start + 1) count))
  let rows ← (timesFrom start count).mapM (strictRow p q series exog (longLag p q) innovations)
  Stop.ofErrors (fitAll rows (series.map (·.drop start)))

/-- The fit, as far as it needs nothing but data. -/
def strictFit (m : Varmax α) (series exog : List (List α)) : Varmax α × Option Stop :=
  match checkShape m.p m.q series exog with
  | .error e => (m, some (.error e))
  | .ok () =>
    let m := m.prepare series
    match strictSolve m.p m.q series exog with
    | .error stop => (m, some stop)
    | .ok equations =>
      let m := m.store equations series exog
      if m.isStable then (m, none)
      else
        ({ m with equations := [] },
          some (.error (.nonConvergence s!"VARMAX({m.p},{m.q}) produced non-finite residuals")))

namespace Rectangular

variable {series exog : List (List α)} {n t : Nat}

omit [Scalar α] in
theorem strictCovariates_ok (h : Rectangular series exog n) (ht : t < n) :
    strictCovariates exog t = .ok (covariatesAt exog t) := by
  rcases h.covered with hlength | rfl
  · have hlt : t < exog.length := hlength ▸ ht
    have hpresent : ¬ exog.isEmpty = true :=
      mt List.isEmpty_iff.1 (List.ne_nil_of_length_pos (Nat.zero_lt_of_lt hlt))
    rw [strictCovariates, if_neg hpresent]
    exact entryBack_ok (Nat.zero_le t) (by simp [covariatesAt, hlt])
  · rfl

theorem valuesBack_ok (h : Rectangular series exog n) {lag : Nat} (hle : lag ≤ t)
    (ht : t - lag < n) : valuesBack series t lag = .ok (series.map (·.getD (t - lag) 0)) :=
  mapM_eq_map fun xs hxs => by
    have hlt : t - lag < xs.length := (h.series xs hxs).symm ▸ ht
    exact entryBack_ok (by omega) (by simp [hlt])

theorem length_across (h : Rectangular series exog n) : (JointMoment.across series).length = n := by
  rw [JointMoment.across_eq h.present h.series, List.length_map, List.length_range]

theorem getElem?_across (h : Rectangular series exog n) (ht : t < n) :
    (JointMoment.across series)[t]? = some (series.map (·.getD t 0)) := by
  rw [JointMoment.across_eq h.present h.series, List.getElem?_map, List.getElem?_range ht]
  rfl

end Rectangular

/-- Moments that hold the values of a sample and, from time `first` on, the innovations that a row may
read. -/
structure Moments (series : List (List α)) (n q first : Nat) (innovations : List (List α))
    (moments : List (JointMoment α)) : Prop where
  length : moments.length = n
  values : ∀ t < n, (moments[t]?).map (·.values) = some (series.map (·.getD t 0))
  shocks : 0 < q → ∀ t, first ≤ t → t < n →
    (moments[t]?).map (·.shocks) = innovations[t - first]?

theorem strictRow_eq {series exog innovations : List (List α)} {n p q first t : Nat}
    {moments : List (JointMoment α)} (h : Rectangular series exog n)
    (hm : Moments series n q first innovations moments) (hp : p ≤ t) (hq : 0 < q → first + q ≤ t)
    (ht : t < n) (means : List α) : strictRow p q series exog first innovations t =
      .ok (regressors means p q (covariatesAt exog t) (moments.take t).reverse) := by
  let past := (moments.take t).reverse
  have hback : ∀ lag, 0 < lag → lag ≤ t → Past.back? past lag = moments[t - lag]? :=
    fun lag hlag hle => Past.back?_reverse_take hlag hle (hm.length.symm ▸ ht.le)
  have hvalues : (lagsTo p).mapM (valuesBack series t) =
      .ok ((lagsTo p).map fun lag => ((Past.back? past lag).map (·.values)).getD means) := by
    refine mapM_eq_map fun lag hlag => ?_
    obtain ⟨hpos, hle⟩ := mem_lagsTo.1 hlag
    rw [hback lag hpos (by omega), hm.values _ (by omega), Option.getD_some]
    exact h.valuesBack_ok (by omega) (by omega)
  have hshocks : (lagsTo q).mapM (entryBack first innovations t) =
      .ok ((lagsTo q).map fun lag =>
        ((Past.back? past lag).map (·.shocks)).getD (means.map fun _ => 0)) := by
    refine mapM_eq_map fun lag hlag => ?_
    obtain ⟨hpos, hle⟩ := mem_lagsTo.1 hlag
    have hfirst := hq (by omega)
    have hlt : t - lag < moments.length := by
      rw [hm.length]
      omega
    have hread := hm.shocks (by omega) (t - lag) (by omega) (by omega)
    rw [List.getElem?_eq_getElem hlt] at hread
    rw [hback lag hpos (by omega), List.getElem?_eq_getElem hlt]
    exact entryBack_ok (by omega) hread.symm
  rw [strictRow, h.strictCovariates_ok ht, hvalues, hshocks, regressors_eq, lagBlocks, lagsTo,
    lagsTo, List.map_map, List.map_map]
  rfl

section Stages

variable {series exog innovations : List (List α)} {n p q first start long : Nat}
  {moments : List (JointMoment α)}

theorem strictRows_eq (h : Rectangular series exog n)
    (hm : Moments series n q first innovations moments) (hp : p ≤ start)
    (hq : 0 < q → first + q ≤ start) (means : List α) :
    (timesFrom start n).mapM (strictRow p q series exog first innovations) =
      .ok ((laggedRows means p q exog moments).drop start) := by
  rw [laggedRows, Past.mapIdx_each_drop fun t => regressors means p q (covariatesAt exog t),
    hm.length]
  refine mapM_eq_map fun t ht => ?_
  obtain ⟨hstart, hlt⟩ := mem_timesFrom.1 ht
  exact strictRow_eq h hm (hp.trans hstart) (fun hpos => (hq hpos).trans hstart) hlt means

namespace Rectangular

theorem values_across (h : Rectangular series exog n) (start : Nat) :
    (timesFrom start n).mapM (valuesBack series · 0) =
      .ok ((JointMoment.across series).drop start) := by
  have hacross : (JointMoment.across series).drop start =
      (timesFrom start n).map fun t => series.map (·.getD t 0) := by
    rw [JointMoment.across_eq h.present h.series, ← List.map_drop, List.range_eq_range',
      List.drop_range', timesFrom, Nat.zero_add, Nat.mul_one]
  rw [hacross]
  refine mapM_eq_map fun t ht => ?_
  obtain ⟨-, hlt⟩ := mem_timesFrom.1 ht
  exact h.valuesBack_ok (Nat.zero_le t) hlt

/-- Without lags of innovations there need not be any. -/
theorem moments_long (h : Rectangular series exog n) (first : Nat) :
    Moments series n 0 first [] ((JointMoment.across series).map (⟨·, []⟩)) where
  length := by rw [List.length_map, h.length_across]
  values t ht := by
    rw [List.getElem?_map, h.getElem?_across ht]
    rfl
  shocks hq := absurd hq (Nat.lt_irrefl 0)

theorem moments_of (h : Rectangular series exog n) {estimated : List (List α)}
    (hlength : innovations.length = n) (hestimated : 0 < q → estimated = innovations.drop first) :
    Moments series n q first estimated (momentsOf series innovations) := by
  have hmoment : ∀ t < n, (momentsOf series innovations)[t]? =
      innovations[t]?.map (JointMoment.mk (series.map (·.getD t 0))) := by
    intro t ht
    rw [momentsOf, List.getElem?_zipWith, h.getElem?_across ht]
    cases innovations[t]? <;> rfl
  refine ⟨?_, fun t ht => ?_, fun hq t hfirst ht => ?_⟩
  · rw [momentsOf, List.length_zipWith, h.length_across, hlength, Nat.min_self]
  · rw [hmoment t ht, List.getElem?_eq_getElem (hlength ▸ ht)]
    rfl
  · rw [hmoment t ht, hestimated hq, List.getElem?_drop, Nat.add_sub_cancel' hfirst]
    cases innovations[t]? <;> rfl

theorem strictInnovations_eq (h : Rectangular series exog n) (means : List α) (long : Nat) :
    strictInnovations series exog long =
      Stop.ofErrors ((longInnovations means series exog long).map (·.drop long)) := by
  have hrows := strictRows_eq h (h.moments_long 0) (le_refl long)
    (fun hq => absurd hq (Nat.lt_irrefl 0)) means
  rw [strictInnovations, length_head h.present h.series, longInnovations_eq]
  change ((timesFrom long n).mapM _ >>= fun rows => (timesFrom long n).mapM _ >>= _) = _
  rw [hrows, h.values_across]
  change (Stop.ofErrors (fitAll ((longRows means series exog long).drop long) _) >>= _) = _
  cases fitAll ((longRows means series exog long).drop long) (series.map (·.drop long)) with
  | error e => rfl
  | ok equations =>
    refine congrArg Except.ok ?_
    dsimp only
    rw [List.drop_left' List.length_replicate, List.zip_eq_zipWith, List.map_zipWith]
    rfl

theorem length_longInnovations (h : Rectangular series exog n) {means : List α} (hlong : long ≤ n)
    (hstage : longInnovations means series exog long = .ok innovations) :
    innovations.length = n := by
  rw [longInnovations_eq] at hstage
  obtain ⟨equations, -, rfl⟩ := map_ok_iff.1 hstage
  rw [List.length_append, List.length_replicate, List.length_map, List.length_zip,
    List.length_drop, List.length_drop, longRows, length_laggedRows, List.length_map,
    h.length_across, Nat.min_self, Nat.add_sub_cancel' hlong]

theorem firstStage_error (h : Rectangular series exog n) {means : List α} {e : Error}
    (hstage : firstStage means p q series exog n = .error e) :
    strictFirstStage p q series exog n = .error (.error e) := by
  unfold firstStage at hstage
  dsimp only at hstage
  unfold strictFirstStage longLag
  split_ifs at hstage with hq hshort
  · rw [if_neg hq, if_pos hshort]
    cases hstage
    rfl
  · rw [if_neg hq, if_neg hshort, h.strictInnovations_eq means]
    obtain hlong | ⟨_, -, hpair⟩ := bind_error_iff.1 hstage
    · rw [hlong]
      rfl
    · cases hpair

/-- The innovations that the second stage reads are those that the first stage has estimated. -/
theorem firstStage_ok (h : Rectangular series exog n) {means : List α} {start : Nat}
    (hstage : firstStage means p q series exog n = .ok (innovations, start)) :
    start = secondStart p q ∧ innovations.length = n ∧
      ∃ estimated, strictFirstStage p q series exog n = .ok estimated ∧
        (0 < q → estimated = innovations.drop (longLag p q)) := by
  unfold firstStage at hstage
  dsimp only at hstage
  unfold strictFirstStage secondStart longLag
  split_ifs at hstage with hq hshort
  · obtain ⟨rfl, rfl⟩ := Prod.mk.inj (Except.ok.inj hstage)
    rw [if_pos hq, if_pos hq]
    exact ⟨rfl, List.length_replicate, [], rfl, fun hpos => absurd hq hpos.ne'⟩
  · obtain ⟨_, hlong, hpair⟩ := bind_ok_iff.1 hstage
    obtain ⟨rfl, rfl⟩ := Prod.mk.inj (pure_ok_iff.1 hpair)
    rw [if_neg hq, if_neg hq, if_neg hshort, h.strictInnovations_eq means, hlong]
    exact ⟨rfl, h.length_longInnovations (by omega) hlong, _, rfl, fun _ => rfl⟩

/-- The equations need nothing but the sample, and so not the means of its series. -/
theorem strictSolve_eq (h : Rectangular series exog n) (m : Varmax α) :
    strictSolve m.p m.q series exog = Stop.ofErrors (m.solve series exog) := by
  rw [solve_eq, strictSolve, length_head h.present h.series]
  cases hstage : firstStage m.means m.p m.q series exog n with
  | error e =>
    rw [h.firstStage_error hstage]
    rfl
  | ok stage =>
    obtain ⟨innovations, start⟩ := stage
    obtain ⟨rfl, hlength, estimated, hstrict, hestimated⟩ := h.firstStage_ok hstage
    have hp : m.p ≤ secondStart m.p m.q := by
      rw [secondStart]
      split_ifs <;> omega
    have hq : 0 < m.q → longLag m.p m.q + m.q ≤ secondStart m.p m.q := by
      intro hpos
      rw [secondStart, if_neg hpos.ne']
      exact Nat.le_max_right ..
    have hrows := strictRows_eq h (h.moments_of hlength hestimated) hp hq m.means
    rw [hstrict]
    change (if _ then _ else (timesFrom (secondStart m.p m.q) n).mapM _ >>= _) =
      Stop.ofErrors (if _ then _ else _)
    rw [hrows]
    split_ifs <;> rfl

end Rectangular

end Stages

/-- The fit needs nothing but data, whatever it is given. -/
theorem strictFit_eq (m : Varmax α) (series exog : List (List α)) :
    m.strictFit series exog = ((m.fit series exog).1, (m.fit series exog).2.map .error) := by
  unfold strictFit
  cases hshape : checkShape m.p m.q series exog with
  | error e => rw [fit_refused hshape]; rfl
  | ok =>
    obtain ⟨n, hrectangular⟩ := rectangular_of_checkShape hshape
    rw [fit_shaped hshape]
    dsimp only
    rw [hrectangular.strictSolve_eq (m.prepare series)]
    cases (m.prepare series).solve series exog with
    | error e => rfl
    | ok equations =>
      dsimp only [Stop.ofErrors_ok]
      split_ifs <;> rfl

end Infill.Varmax
