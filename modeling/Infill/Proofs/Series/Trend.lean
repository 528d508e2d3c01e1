import Mathlib.Algebra.Group.ForwardDiff
import Mathlib.Tactic.ComputeDegree
import Infill.Proofs.Series.Integration
import Infill.Proofs.Series.LoneForecast

/-! Polynomial trends. Differencing a sample of a polynomial samples its forward difference, so as many
differences as its degree leave a constant, which the mean explains to the last digit. Integration
goes back from there to the values that follow the sample, whatever part of it is known. The sample
read backwards is one of the mirrored polynomial, the trend of which leads to the values in front. -/

namespace Infill

def SarimaxOrder.integrated (d : Nat) : SarimaxOrder := ⟨0, d, 0, 0, 0, 0, 0⟩

def Arma.constantAt {α : Type} (c : α) : Arma α := ⟨c, [], [], c⟩

variable {K : Type} [ExactNumber K]

open Exact (number Numbers)

/-- The values of a function at as many whole numbers, one after the other. -/
def valuesFrom (f : K → K) (start : ℤ) (count : Nat) : List (Exact K) :=
  (List.range count).map fun i : Nat => number (f (start + i : ℤ))

section Samples

variable (f : K → K) (start : ℤ) (n m : Nat)

@[simp] theorem length_valuesFrom : (valuesFrom f start n).length = n := by simp [valuesFrom]

theorem getElem_valuesFrom {i : Nat} (h : i < (valuesFrom f start n).length) :
    (valuesFrom f start n)[i] = number (f (start + i : ℤ)) := by
  simp [valuesFrom]

theorem numbers_valuesFrom : Numbers (valuesFrom f start n) := by
  intro x hx
  obtain ⟨i, -, rfl⟩ := List.mem_map.1 hx
  rfl

theorem valuesFrom_append :
    valuesFrom f start (n + m) = valuesFrom f start n ++ valuesFrom f (start + n) m := by
  rw [valuesFrom, List.range_add, List.map_append, List.map_map, valuesFrom, valuesFrom]
  simp [Function.comp_def, add_assoc]

theorem valuesFrom_take {k : Nat} (h : k ≤ n) :
    (valuesFrom f start n).take k = valuesFrom f start k := by
  rw [valuesFrom, ← List.map_take, List.take_range, Nat.min_eq_left h, valuesFrom]

theorem differenceAt_valuesFrom :
    differenceAt 1 (valuesFrom f start n) = valuesFrom (fwdDiff 1 f) start (n - 1) := by
  rw [differenceAt, if_neg Nat.one_ne_zero]
  refine List.ext_getElem (by simp) fun i _ _ => ?_
  have hnext : ((start + (1 + i : Nat) : ℤ) : K) = (start + i : ℤ) + 1 := by
    push_cast
    ring
  rw [List.getElem_zipWith, List.getElem_drop, getElem_valuesFrom, getElem_valuesFrom,
    getElem_valuesFrom, fwdDiff, hnext]
  rfl

/-- Differences of a sample are a sample of the differences. -/
theorem apply_valuesFrom (d : Nat) : (SarimaxOrder.integrated d).differencing.apply
    (valuesFrom f start n) = valuesFrom ((fwdDiff 1)^[d] f) start (n - d) := by
  have hlags : (SarimaxOrder.integrated d).differencing.lags = List.replicate d 1 := by
    simp [SarimaxOrder.integrated, SarimaxOrder.differencing, Differencing.lags]
  rw [Differencing.apply, hlags]
  induction d generalizing f n with
  | zero => rfl
  | succ d ih =>
    rw [List.replicate_succ, List.foldl_cons, differenceAt_valuesFrom, ih,
      Function.iterate_succ_apply, Nat.sub_sub, Nat.add_comm 1 d]
    simp [SarimaxOrder.integrated, SarimaxOrder.differencing, Differencing.lags]

end Samples

/-- What does not change from one whole number to the next is the same at all of them. -/
theorem valuesFrom_of_fwdDiff {f : K → K} (hf : fwdDiff 1 f = 0) (start : ℤ) (n : Nat) :
    valuesFrom f start n = List.replicate n (number (f start)) := by
  have hsame : ∀ i : Nat, f (start + i : ℤ) = f start := by
    intro i
    induction i with
    | zero => simp
    | succ i ih =>
      have hstep : f ((start + i : ℤ) + 1) - f (start + i : ℤ) = 0 := congrFun hf _
      rw [← ih, ← sub_eq_zero, ← hstep]
      push_cast
      rw [add_assoc]
  rw [valuesFrom, List.map_congr_left fun i _ => congrArg number (hsame i), List.map_const',
    List.length_range]

/-- As many differences as the degree of a polynomial leave a constant. -/
theorem apply_trend {f : Polynomial K} {d : Nat} (hf : f.natDegree ≤ d) (n : Nat) :
    (SarimaxOrder.integrated d).differencing.apply (valuesFrom f.eval 0 n) =
      List.replicate (n - d) (number ((fwdDiff 1)^[d] f.eval 0)) := by
  have hconstant : fwdDiff 1 ((fwdDiff 1)^[d] f.eval) = 0 := by
    rw [← Function.iterate_succ_apply' (fwdDiff 1)]
    exact Polynomial.fwdDiff_iter_eq_zero_of_degree_lt (Nat.lt_succ_of_le hf)
  rw [apply_valuesFrom, valuesFrom_of_fwdDiff hconstant, Int.cast_zero]

/-- The polynomial that has the values at `0`, …, `n - 1` in reverse. -/
noncomputable def mirrored (f : Polynomial K) (n : Nat) : Polynomial K :=
  f.comp (.C ((n : K) - 1) - .X)

theorem natDegree_mirrored_le (f : Polynomial K) (n : Nat) :
    (mirrored f n).natDegree ≤ f.natDegree := by
  have hlinear : (Polynomial.C ((n : K) - 1) - Polynomial.X).natDegree ≤ 1 := by compute_degree
  calc (mirrored f n).natDegree
    _ ≤ f.natDegree * (Polynomial.C ((n : K) - 1) - Polynomial.X).natDegree :=
      Polynomial.natDegree_comp_le
    _ ≤ f.natDegree * 1 := Nat.mul_le_mul_left _ hlinear
    _ = f.natDegree := mul_one _

theorem eval_mirrored (f : Polynomial K) (n : Nat) (x : ℤ) :
    (mirrored f n).eval (x : K) = f.eval ((n - 1 - x : ℤ) : K) := by
  simp [mirrored, Polynomial.eval_comp]

theorem eval_eq_mirrored (f : Polynomial K) (n : Nat) (x : ℤ) :
    f.eval (x : K) = (mirrored f n).eval ((n - 1 - x : ℤ) : K) := by
  rw [eval_mirrored, sub_sub_cancel]

/-- Read backwards, values of a function are values of its mirror image. -/
theorem valuesFrom_reverse {f g : K → K} (turn : ℤ) (h : ∀ x : ℤ, f x = g (turn - x : ℤ))
    (start : ℤ) (n : Nat) :
    (valuesFrom f start n).reverse = valuesFrom g (turn + 1 - start - n) n := by
  refine List.ext_getElem (by simp) fun i hi _ => ?_
  have hlt : i < n := by simpa using hi
  rw [List.getElem_reverse, getElem_valuesFrom, getElem_valuesFrom, h, length_valuesFrom]
  congr 3
  omega

namespace Arma

variable (c : K)

theorem predictNext_constantAt (past : List (Moment (Exact K))) :
    (constantAt (number c)).predictNext past = number c := by
  change number (c + 0 + 0) = number c
  rw [add_zero, add_zero]

theorem extend_constantAt (w : List (Exact K)) (steps : Nat) :
    (constantAt (number c)).extend w steps = List.replicate steps (number c) := by
  rw [extend]
  generalize (constantAt (number c)).history w = past
  induction steps generalizing past with
  | zero => rfl
  | succ steps ih => rw [ahead, predictNext_constantAt, ih, List.replicate_succ]

theorem residuals_constantAt {w : List (Exact K)} (hw : Numbers w) :
    ((constantAt (number c)).residuals w).all Scalar.isFinite = true := by
  have key : ∀ past : List (Moment (Exact K)), past.all (Scalar.isFinite ·.2) →
      (w.foldl (constantAt (number c)).observe past).all (Scalar.isFinite ·.2) := by
    induction w with
    | nil => exact fun _ h => h
    | cons x rest ih =>
      obtain ⟨hx, hrest⟩ := Numbers.cons_iff.1 hw
      refine fun past h => ih hrest _ ?_
      rw [observe, List.all_cons, h, Bool.and_true]
      split_ifs
      · rfl
      · rw [predictNext_constantAt]
        exact Exact.isFinite_sub hx rfl
  rw [residuals, List.all_reverse, List.all_map]
  exact key [] rfl

theorem estimate_constantAt {n : Nat} (hn : 0 < n) :
    estimate (List.replicate n (number c)) [] [] = .ok (constantAt (number c)) := by
  have hne : (List.replicate n c).map number ≠ [] := by simp [hn.ne']
  have hmean : Scalar.mean (List.replicate n (number c)) = number c := by
    have hcast : (n : K) ≠ 0 := Nat.cast_ne_zero.2 hn.ne'
    rw [← List.map_replicate, Exact.mean_numbers (by simpa using hne), List.sum_replicate,
      List.length_replicate, nsmul_eq_mul, mul_div_cancel_left₀ c hcast]
  simp [estimate, hmean, hn.ne', constantAt]

end Arma

namespace SarimaxFit

/-- The fit of a polynomial trend: a constant rate of the degree of the trend. -/
def ofTrend (f : Polynomial K) (d n : Nat) (exog : List (List (Exact K))) : SarimaxFit (Exact K) :=
  ofArma (.constantAt (number ((fwdDiff 1)^[d] f.eval 0))) (valuesFrom f.eval 0 n) exog

variable {f : Polynomial K} {d n : Nat} {exog : List (List (Exact K))}

theorem ofTrend_plain : ¬ (ofTrend f d n exog).regression.isSome = true := Bool.false_ne_true

theorem estimate_trend (hf : f.natDegree ≤ d) (hn : d < n) (hexog : Uncovered exog) :
    estimate (.integrated d) [valuesFrom f.eval 0 n] exog = .ok (ofTrend f d n exog) := by
  have hne : valuesFrom f.eval 0 n ≠ [] := by
    rw [ne_eq, ← List.length_eq_zero_iff, length_valuesFrom]
    omega
  have hregress : regress (valuesFrom f.eval 0 n) exog = .ok none := by simp [regress, hexog.head]
  have hlags : (SarimaxOrder.integrated d).arLags = [] ∧ (SarimaxOrder.integrated d).maLags = [] :=
    ⟨rfl, rfl⟩
  unfold estimate
  dsimp only
  rw [pure_bind, check_ok_iff, hregress, List.isEmpty_iff, hlags.1, hlags.2, bind_ok_iff]
  refine ⟨hne, none, rfl, ?_⟩
  rw [unexplained, apply_trend hf, Arma.estimate_constantAt _ (Nat.sub_pos_of_lt hn), bind_ok_iff]
  refine ⟨_, rfl, checked_ok_iff.2 ⟨?_, rfl⟩⟩
  rw [← List.map_replicate]
  exact Arma.residuals_constantAt _ (Exact.numbers_map _)

/-- From every part of the sample that the differences leave something of, the trend goes on. -/
theorem forecastFrom_trend (hf : f.natDegree ≤ d) {k : Nat} (hk : d < k) (hkn : k ≤ n)
    (horizon : Nat) (future : List (List (Exact K))) :
    (ofTrend f d n exog).forecastFrom (.integrated d) k horizon future =
      .ok (.ofValues (valuesFrom f.eval k horizon)) := by
  let chain := (SarimaxOrder.integrated d).differencing
  have hloss : chain.loss = d := by
    simp [chain, SarimaxOrder.integrated, SarimaxOrder.differencing, Differencing.loss_eq_sum,
      Differencing.lags]
  have hlong : chain.loss < (valuesFrom f.eval 0 k).length := by
    rwa [hloss, length_valuesFrom]
  have hpresent : chain.apply (valuesFrom f.eval 0 k) ≠ [] := by
    rw [ne_eq, Differencing.apply_eq_nil_iff]
    omega
  -- The differences of the sample and of what follows it are one constant throughout.
  have hsteps : chain.integrate (valuesFrom f.eval 0 k)
      (List.replicate horizon (number ((fwdDiff 1)^[d] f.eval 0))) =
        .ok (valuesFrom f.eval k horizon) := by
    have hback := Differencing.integrate_lastValues chain (numbers_valuesFrom f.eval 0 k)
      (numbers_valuesFrom f.eval (0 + k) horizon) hlong
    rw [← valuesFrom_append, apply_trend hf, Score.lastValues, List.length_replicate,
      List.drop_replicate, length_valuesFrom, zero_add] at hback
    rwa [show k + horizon - d - (k + horizon - d - horizon) = horizon by omega] at hback
  have hpast : (ofTrend f d n exog).residual.take k = valuesFrom f.eval 0 k :=
    valuesFrom_take f.eval 0 n hkn
  refine forecastFrom_ok_iff.2 ⟨?_, ?_⟩
  · rwa [ofTrend, ofArma, length_valuesFrom]
  · rcases Nat.eq_zero_or_pos horizon with rfl | hpos
    · exact .inl ⟨rfl, rfl⟩
    · rw [hpast]
      refine .inr ⟨hpos.ne', fun h => absurd h ofTrend_plain, hpresent, valuesFrom f.eval k horizon,
        ?_, ?_, ?_⟩
      · rw [ofTrend, ofArma, Arma.extend_constantAt]
        exact hsteps
      · rw [ofTrend, mapIdx_explained]
        exact List.all_eq_true.2 (numbers_valuesFrom f.eval k horizon)
      · rw [ofTrend, mapIdx_explained]

/-- The trend of the mirrored polynomial leads to the values in front. -/
theorem backcast_trend (hf : f.natDegree ≤ d) (hn : d < n) (hexog : Uncovered exog)
    (horizon : Nat) (before : List (List (Exact K))) :
    (ofTrend f d n exog).backcast (.integrated d) horizon before =
      .ok (.ofValues (valuesFrom f.eval (-horizon) horizon)) := by
  have hmirrored := (natDegree_mirrored_le f n).trans hf
  have hreversed : estimate (.integrated d) [(ofTrend f d n exog).endog.reverse]
      (ofTrend f d n exog).exog.reverse = .ok (ofTrend (mirrored f n) d n exog.reverse) := by
    have hsample : (ofTrend f d n exog).endog.reverse = valuesFrom (mirrored f n).eval 0 n := by
      refine (valuesFrom_reverse (f := f.eval) (g := (mirrored f n).eval) (n - 1)
        (eval_eq_mirrored f n) 0 n).trans ?_
      congr 1
      ring
    rw [hsample]
    exact estimate_trend hmirrored hn hexog.reverse
  have hfront : (valuesFrom (mirrored f n).eval n horizon).reverse =
      valuesFrom f.eval (-horizon) horizon := by
    refine (valuesFrom_reverse (f := (mirrored f n).eval) (g := f.eval) (n - 1)
      (eval_mirrored f n) n horizon).trans ?_
    congr 1
    ring
  refine backcast_ok_iff.2 ?_
  rcases Nat.eq_zero_or_pos horizon with rfl | hpos
  · exact .inl ⟨rfl, rfl⟩
  · refine .inr ⟨hpos.ne', fun h => absurd h ofTrend_plain, _,
      .ofValues (valuesFrom (mirrored f n).eval n horizon), hreversed, ?_,
      congrArg Forecast.ofValues hfront⟩
    have hlength : (ofTrend (mirrored f n) d n exog.reverse).residual.length = n :=
      length_valuesFrom (mirrored f n).eval 0 n
    rw [if_neg ofTrend_plain, hlength]
    exact forecastFrom_trend hmirrored hn le_rfl horizon []

end SarimaxFit

/-- A model of `d` differences and no lags is fitted to every sample of a polynomial of degree at most
`d` that is longer than `d`, and predicts the polynomial: behind every part of the sample that is
longer than `d`, and in front of the sample. -/
theorem Sarimax.trend_continues {f : Polynomial K} {d n : Nat} (hf : f.natDegree ≤ d) (hn : d < n)
    {exog : List (List (Exact K))} (hexog : Uncovered exog) {m : Sarimax (Exact K)}
    (horder : m.order = .integrated d) :
    ∃ m', m.fit [valuesFrom f.eval 0 n] exog = (m', none) ∧
      (∀ k horizon future, d < k → k ≤ n →
        m'.forecastFrom k horizon future = .ok (.ofValues (valuesFrom f.eval k horizon))) ∧
      ∀ (horizon : Nat) (before : List (List (Exact K))),
        m'.backcast horizon before = .ok (.ofValues (valuesFrom f.eval (-horizon) horizon)) := by
  refine ⟨{ m with fitted := some (.ofTrend f d n exog) }, ?_, ?_, ?_⟩
  · rw [fit, horder, SarimaxFit.estimate_trend hf hn hexog]
  · intro k horizon future hk hkn
    rw [forecastFrom, horder]
    exact SarimaxFit.forecastFrom_trend hf hk hkn horizon future
  · intro horizon before
    rw [backcast, horder]
    exact SarimaxFit.backcast_trend hf hn hexog horizon before

/-- Five values of a polynomial of degree two, and two more on either side. -/
theorem Sarimax.parabola_continues :
    ∃ m' : Sarimax (Exact ℚ), (Sarimax.new (.integrated 2)).fit
        [[1, -1, -1, 1, 5].map number] [] = (m', none) ∧
      m'.forecastFrom 3 2 [] = .ok (.ofValues ([1, 5].map number)) ∧
      m'.forecastFrom 5 2 [] = .ok (.ofValues ([11, 19].map number)) ∧
      m'.backcast 2 [] = .ok (.ofValues ([11, 5].map number)) := by
  have hdegree : (.X ^ 2 - 3 * .X + 1 : Polynomial ℚ).natDegree ≤ 2 := by compute_degree
  obtain ⟨m', hfit, hforecast, hbackcast⟩ := @trend_continues ℚ _ _ 2 5 hdegree (by decide) []
    (by simp [Uncovered]) (.new (.integrated 2)) rfl
  have hvalues : ∀ start count, valuesFrom (.X ^ 2 - 3 * .X + 1 : Polynomial ℚ).eval start count =
      valuesFrom (fun x => x ^ 2 - 3 * x + 1) start count := by
    intro start count
    simp [valuesFrom]
  have hsample : valuesFrom (fun x : ℚ => x ^ 2 - 3 * x + 1) 0 5 =
      [1, -1, -1, 1, 5].map number := by
    norm_num [valuesFrom, List.range_succ]
  have hmiddle : valuesFrom (fun x : ℚ => x ^ 2 - 3 * x + 1) 3 2 = [1, 5].map number := by
    norm_num [valuesFrom, List.range_succ]
  have hafter : valuesFrom (fun x : ℚ => x ^ 2 - 3 * x + 1) 5 2 = [11, 19].map number := by
    norm_num [valuesFrom, List.range_succ]
  have hbefore : valuesFrom (fun x : ℚ => x ^ 2 - 3 * x + 1) (-2) 2 = [11, 5].map number := by
    norm_num [valuesFrom, List.range_succ]
  simp only [hvalues] at hfit hforecast hbackcast
  refine ⟨m', hsample ▸ hfit, ?_, ?_, ?_⟩
  · exact (hforecast 3 2 [] (by decide) (by decide)).trans (by rw [← hmiddle]; rfl)
  · exact (hforecast 5 2 [] (by decide) (by decide)).trans (by rw [← hafter]; rfl)
  · exact (hbackcast 2 []).trans (by rw [← hbefore]; rfl)

end Infill
