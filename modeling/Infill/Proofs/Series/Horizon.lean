import Infill.Proofs.Series.Dimensions
import Infill.Proofs.Series.LoneForecast

/-! Forecasts of one past agree as far as both of them go. A step depends on the past and on the steps
in front of it, and not on how many are still to come; neither does what integration and covariates
make of it. Where a forecast succeeds, so does every shorter one, and its steps are the first ones of
the longer forecast. -/

namespace Infill

variable {α : Type} [Scalar α]

def Forecast.first (f : Forecast α) (steps : Nat) : Forecast α := ⟨f.point.map (List.take steps)⟩

/-- The forecasts of a model cover its `count` series and their horizon, and each begins with all
shorter ones from the same part of the sample. -/
structure Forecaster.Consistent (model : Forecaster α) (count : Nat) : Prop where
  covers : ∀ history horizon covariates forecast,
    model.forecastFrom history horizon covariates = .ok forecast → forecast.Covers count horizon
  first : ∀ history short long covariates forecast, short ≤ long →
    model.forecastFrom history long covariates = .ok forecast →
      model.forecastFrom history short covariates = .ok (forecast.first short)

theorem all_take {β : Type} {p : β → Bool} {xs : List β} (h : xs.all p = true) (n : Nat) :
    (xs.take n).all p = true :=
  List.all_eq_true.2 fun x hx => List.all_eq_true.1 h x (List.mem_of_mem_take hx)

theorem mapIdx_take {β γ : Type} (f : Nat → β → γ) (xs : List β) (n : Nat) :
    (xs.take n).mapIdx f = (xs.mapIdx f).take n := by
  refine List.ext_getElem? fun i => ?_
  rw [List.getElem?_mapIdx, List.getElem?_take, List.getElem?_take]
  split_ifs
  · exact List.getElem?_mapIdx.symm
  · rfl

theorem Arma.ahead_take (a : Arma α) (past : List (Moment α)) {short long : Nat}
    (h : short ≤ long) : a.ahead past short = (a.ahead past long).take short := by
  induction short generalizing past long with
  | zero => rfl
  | succ short ih =>
    obtain ⟨long, rfl⟩ := Nat.exists_eq_add_of_lt h
    rw [ahead, ahead, List.take_succ_cons, ih _ (Nat.le_of_succ_le_succ h)]

theorem restoreFrom_take (lag : Nat) (past future : List α) (n : Nat) :
    restoreFrom lag past (future.take n) = (restoreFrom lag past future).take n := by
  induction future generalizing past n with
  | nil => simp [restoreFrom]
  | cons w rest ih =>
    cases n with
    | zero => rfl
    | succ n => rw [List.take_succ_cons, restoreFrom, restoreFrom, List.take_succ_cons, ih]

namespace Differencing

/-- Every level of a chain is extended from its own end, one value at a time. -/
theorem integrateLags_take (lags : List Nat) (history future : List α) (n : Nat) :
    integrateLags lags history (future.take n) = (integrateLags lags history future).take n := by
  induction lags generalizing history with
  | nil => rfl
  | cons lag lags ih => rw [integrateLags, integrateLags, ih, restoreFrom_take]

theorem integrate_take {c : Differencing} {history future values : List α}
    (h : c.integrate history future = .ok values) (n : Nat) :
    c.integrate history (future.take n) = .ok (values.take n) := by
  unfold integrate at h ⊢
  split_ifs at h ⊢
  · rw [Except.ok.inj h]
  · rw [integrateLags_take, Except.ok.inj h]

end Differencing

theorem SarimaxFit.forecastFrom_first {order : SarimaxOrder} {f : SarimaxFit α}
    {history short long : Nat} {future : List (List α)} {forecast : Forecast α}
    (hle : short ≤ long) (h : f.forecastFrom order history long future = .ok forecast) :
    f.forecastFrom order history short future = .ok (forecast.first short) := by
  obtain ⟨hhistory, h⟩ := forecastFrom_ok_iff.1 h
  refine forecastFrom_ok_iff.2 ⟨hhistory, ?_⟩
  by_cases hshort : short = 0
  · subst hshort
    refine .inl ⟨rfl, ?_⟩
    rcases h with ⟨-, rfl⟩ | ⟨-, -, -, -, -, -, rfl⟩ <;> rfl
  · rcases h with ⟨rfl, -⟩ | ⟨-, hfuture, hpast, steps, hsteps, hfinite, rfl⟩
    · exact absurd (Nat.le_zero.1 hle) hshort
    · have hfirst := Differencing.integrate_take hsteps short
      rw [Arma.extend, ← Arma.ahead_take _ _ hle, ← Arma.extend] at hfirst
      refine .inr ⟨hshort, fun hregression => hle.trans (hfuture hregression), hpast, _, hfirst,
        ?_, ?_⟩
      · rw [mapIdx_take]
        exact all_take hfinite short
      · rw [mapIdx_take]
        rfl

theorem Sarimax.consistent (m : Sarimax α) : m.forecaster.Consistent 1 where
  covers := m.dimensioned.forecastFrom
  first history short long covariates forecast hle h := by
    unfold forecaster forecastFrom at h ⊢
    dsimp only at h ⊢
    split at h
    · exact SarimaxFit.forecastFrom_first hle h
    · cases h

namespace Varmax

theorem ahead_take (m : Varmax α) (past : List (JointMoment α)) (rows : List (List α)) (n : Nat) :
    m.ahead past (rows.take n) = (m.ahead past rows).take n := by
  induction rows generalizing past n with
  | nil => simp [ahead]
  | cons covariates rest ih =>
    cases n with
    | zero => rfl
    | succ n => rw [List.take_succ_cons, ahead, ahead, List.take_succ_cons, ih]

omit [Scalar α] in
theorem futureRows_take (m : Varmax α) {short long : Nat} (h : short ≤ long)
    (future : List (List α)) :
    m.futureRows short future = (m.futureRows long future).take short := by
  rw [futureRows, futureRows, ← List.map_take, List.take_range, Nat.min_eq_left h]

theorem along_take (count : Nat) (rows : List (List α)) (n : Nat) :
    JointMoment.along count (rows.take n) = (JointMoment.along count rows).map (List.take n) := by
  simp [JointMoment.along, List.map_take, Function.comp_def]

theorem forecastFrom_first {m : Varmax α} {history short long : Nat} {future : List (List α)}
    {forecast : Forecast α} (hle : short ≤ long)
    (h : m.forecastFrom history long future = .ok forecast) :
    m.forecastFrom history short future = .ok (forecast.first short) := by
  obtain ⟨n, hn, hpast, hhistory, hfuture, hfinite, rfl⟩ := forecastFrom_ok_iff.1 h
  refine forecastFrom_ok_iff.2 ⟨n, hn, hpast, hhistory, fun hcount => hle.trans (hfuture hcount),
    ?_, ?_⟩
  · rw [Forecast.isFinite, Forecast.first, List.all_map]
    rw [Forecast.isFinite, List.all_eq_true] at hfinite
    exact List.all_eq_true.2 fun values hvalues => all_take (hfinite values hvalues) short
  · rw [futureRows_take m hle, ahead_take, along_take, Forecast.first]

theorem consistent (m : Varmax α) : m.forecaster.Consistent m.endog.length where
  covers _ _ _ _ := forecastFrom_covers
  first _ _ _ _ _ := forecastFrom_first

end Varmax

/-- Whatever the arithmetic, a model that is fitted to series forecasts all of them, in finite numbers
and as far as it is asked to, and what it forecasts does not hang on how far that is. -/
theorem horizons_agree (series exog : List (List α)) :
    (∀ m m' : Sarimax α, m.fit series exog = (m', none) →
      m'.forecaster.Consistent series.length) ∧
    ∀ m m' : Varmax α, m.fit series exog = (m', none) →
      m'.forecaster.Consistent series.length := by
  refine ⟨fun m m' h => ?_, fun m m' h => ?_⟩
  · rw [Sarimax.length_of_fit h]
    exact m'.consistent
  · rw [← Varmax.fit_endog h]
    exact m'.consistent

open Exact (number) in
/-- The single model is fitted to eight values, the joint one to them and to the same values
backwards, both with one covariate. -/
theorem eightValues_horizons :
    let rows : List (List (Exact ℚ)) := [0, 3, 1, 1, 0, 2, 5, 1].map fun x => [number x]
    ∃ single joint f g,
      (Sarimax.new ⟨1, 1, 1, 0, 0, 0, 0⟩).fit [eightValues] rows = (single, none) ∧
      single.forecastFrom 5 3 rows = .ok f ∧ f.Covers 1 3 ∧
      single.forecastFrom 5 2 rows = .ok (f.first 2) ∧
      (Varmax.new 1 0).fit [eightValues, eightValues.reverse] rows = (joint, none) ∧
      joint.forecastFrom 5 3 rows = .ok g ∧ g.Covers 2 3 ∧
      joint.forecastFrom 5 2 rows = .ok (g.first 2) := by
  intro rows
  obtain ⟨single, hsingle⟩ := snd_eq_none_iff.1 (show
    ((Sarimax.new ⟨1, 1, 1, 0, 0, 0, 0⟩).fit [eightValues] rows).2 = none by decide +kernel)
  obtain ⟨joint, hjoint⟩ := snd_eq_none_iff.1 (show
    ((Varmax.new 1 0).fit [eightValues, eightValues.reverse] rows).2 = none by decide +kernel)
  have hf : (((Sarimax.new ⟨1, 1, 1, 0, 0, 0, 0⟩).fit [eightValues] rows).1.forecastFrom 5 3
    rows).isOk = true := by decide +kernel
  have hg : (((Varmax.new 1 0).fit [eightValues, eightValues.reverse] rows).1.forecastFrom 5 3
    rows).isOk = true := by decide +kernel
  rw [hsingle, isOk_iff] at hf
  rw [hjoint, isOk_iff] at hg
  obtain ⟨f, hf⟩ := hf
  obtain ⟨g, hg⟩ := hg
  obtain ⟨hcovers, hfirst⟩ := (horizons_agree [eightValues] rows).1 _ _ hsingle
  obtain ⟨hcovers', hfirst'⟩ :=
    (horizons_agree [eightValues, eightValues.reverse] rows).2 _ _ hjoint
  exact ⟨single, joint, f, g, hsingle, hf, hcovers _ _ _ _ hf, hfirst _ _ _ _ _ (by decide) hf,
    hjoint, hg, hcovers' _ _ _ _ hg, hfirst' _ _ _ _ _ (by decide) hg⟩

end Infill
