import Infill.Impute.SeriesFill
import Infill.Proofs.Series.JointFit
import Infill.Proofs.Series.Predictions

/-! The shape of a prediction. Whatever its history, its horizon and its covariates, a prediction that
succeeds has one series for every series that the model was fitted to, ahead of the sample and in
front of it; each of them has one number per step of the horizon, and all numbers are finite. -/

namespace Infill

variable {α : Type} [Scalar α]

/-- A prediction of `count` series of `horizon` finite numbers. -/
structure Forecast.Covers (f : Forecast α) (count horizon : Nat) : Prop where
  dimensions : f.dimensions = count
  steps : ∀ values ∈ f.point, values.length = horizon
  finite : ∀ values ∈ f.point, ∀ x ∈ values, Scalar.isFinite x = true

structure Forecaster.Dimensioned (model : Forecaster α) (count : Nat) : Prop where
  forecastFrom : ∀ history horizon covariates forecast,
    model.forecastFrom history horizon covariates = .ok forecast → forecast.Covers count horizon
  backcast : ∀ horizon covariates forecast,
    model.backcast horizon covariates = .ok forecast → forecast.Covers count horizon

namespace Forecast.Covers

theorem ofValues {values : List α} (h : values.all Scalar.isFinite = true) :
    (Forecast.ofValues values).Covers 1 values.length where
  dimensions := rfl
  steps := by simp [Forecast.ofValues]
  finite := by simpa [Forecast.ofValues] using h

theorem reverse {f : Forecast α} {count horizon : Nat} (h : f.Covers count horizon) :
    (⟨f.point.map List.reverse⟩ : Forecast α).Covers count horizon where
  dimensions := by simpa [Forecast.dimensions] using h.dimensions
  steps := by
    intro values hvalues
    obtain ⟨ahead, hmem, rfl⟩ := List.mem_map.1 hvalues
    rw [List.length_reverse, h.steps ahead hmem]
  finite := by
    intro values hvalues x hx
    obtain ⟨ahead, hmem, rfl⟩ := List.mem_map.1 hvalues
    exact h.finite ahead hmem x (List.mem_reverse.1 hx)

end Forecast.Covers

theorem length_restoreFrom (lag : Nat) (past future : List α) :
    (restoreFrom lag past future).length = future.length := by
  induction future generalizing past with
  | nil => rfl
  | cons w rest ih => simp [restoreFrom, ih]

theorem Differencing.length_integrateLags (lags : List Nat) (history future : List α) :
    (integrateLags lags history future).length = future.length := by
  induction lags generalizing history with
  | nil => rfl
  | cons lag lags ih => rw [integrateLags, length_restoreFrom, ih]

theorem Differencing.length_integrate {c : Differencing} {history future values : List α}
    (h : c.integrate history future = .ok values) : values.length = future.length := by
  unfold integrate at h
  split_ifs at h
  · rw [Except.ok.inj h]
  · rw [← Except.ok.inj h, length_integrateLags]

theorem Arma.length_ahead (a : Arma α) (past : List (Moment α)) (steps : Nat) :
    (a.ahead past steps).length = steps := by
  induction steps generalizing past with
  | zero => rfl
  | succ steps ih => simp [ahead, ih]

namespace SarimaxFit

theorem forecastFrom_covers {order : SarimaxOrder} {f : SarimaxFit α} {history horizon : Nat}
    {future : List (List α)} {forecast : Forecast α}
    (h : f.forecastFrom order history horizon future = .ok forecast) :
    forecast.Covers 1 horizon := by
  obtain ⟨-, h⟩ := forecastFrom_ok_iff.1 h
  rcases h with ⟨rfl, rfl⟩ | ⟨-, -, -, steps, hsteps, hfinite, rfl⟩
  · exact .ofValues rfl
  · have hlength := Differencing.length_integrate hsteps
    rw [Arma.extend, Arma.length_ahead] at hlength
    have hcovers := Forecast.Covers.ofValues hfinite
    rwa [List.length_mapIdx, hlength] at hcovers

theorem backcast_covers {order : SarimaxOrder} {f : SarimaxFit α} {horizon : Nat}
    {before : List (List α)} {forecast : Forecast α}
    (h : f.backcast order horizon before = .ok forecast) : forecast.Covers 1 horizon := by
  rcases backcast_ok_iff.1 h with ⟨rfl, rfl⟩ | ⟨-, -, reversed, ahead, -, hahead, rfl⟩
  · exact .ofValues rfl
  · have hcovers := forecastFrom_covers hahead
    obtain ⟨values, hvalues⟩ := List.length_eq_one_iff.1 hcovers.dimensions
    have hback := hcovers.reverse
    rw [hvalues] at hback
    simpa [Forecast.ofValues, Forecast.primary, hvalues] using hback

end SarimaxFit

theorem SarimaxFit.estimate_endog {order : SarimaxOrder} {endog exog : List (List α)}
    {f : SarimaxFit α} (h : estimate order endog exog = .ok f) : endog.length = 1 := by
  unfold estimate at h
  dsimp only at h
  split at h
  · rfl
  · obtain ⟨_, h, -⟩ := bind_ok_iff.1 h
    exact absurd h throw_ne_ok

theorem Sarimax.length_of_fit {m m' : Sarimax α} {series exog : List (List α)}
    (h : m.fit series exog = (m', none)) : series.length = 1 := by
  unfold fit at h
  split at h
  · exact SarimaxFit.estimate_endog ‹_›
  · cases h

/-- A model of a single series predicts a single series, and is fitted to no more. -/
theorem Sarimax.dimensioned (m : Sarimax α) : m.forecaster.Dimensioned 1 := by
  constructor
  · intro history horizon covariates forecast h
    unfold forecaster forecastFrom at h
    split at h
    · exact SarimaxFit.forecastFrom_covers h
    · simp at h
  · intro horizon covariates forecast h
    unfold forecaster backcast at h
    split at h
    · exact SarimaxFit.backcast_covers h
    · simp at h

namespace Varmax

theorem length_ahead (m : Varmax α) (past : List (JointMoment α))
    (rows : List (List α)) : (m.ahead past rows).length = rows.length := by
  induction rows generalizing past with
  | nil => rfl
  | cons covariates rest ih => simp [ahead, ih]

theorem forecastFrom_covers {m : Varmax α} {history horizon : Nat} {future : List (List α)}
    {forecast : Forecast α} (h : m.forecastFrom history horizon future = .ok forecast) :
    forecast.Covers m.endog.length horizon := by
  obtain ⟨n, -, -, -, -, hfinite, rfl⟩ := forecastFrom_ok_iff.1 h
  refine ⟨by simp [Forecast.dimensions, JointMoment.along], ?_, ?_⟩
  · simp [JointMoment.along, length_ahead, futureRows]
  · simpa [Forecast.isFinite] using hfinite

theorem fit_endog {m m' : Varmax α} {series exog : List (List α)}
    (h : m.fit series exog = (m', none)) : m'.endog = series := by
  obtain ⟨-, equations, -, rfl, -⟩ := fit_eq_none_iff.1 h
  rfl

theorem backcast_covers {m : Varmax α} {horizon : Nat} {before : List (List α)}
    {forecast : Forecast α} (h : m.backcast horizon before = .ok forecast) :
    forecast.Covers m.endog.length horizon := by
  obtain ⟨-, -, reversed, ahead, hfit, hahead, rfl⟩ := backcast_ok_iff.1 h
  unfold forecast at hahead
  split at hahead
  · have hcovers := forecastFrom_covers hahead
    rw [fit_endog hfit, List.length_map] at hcovers
    exact hcovers.reverse
  · simp at hahead

end Varmax

/-- A model fitted to several series predicts all of them. -/
theorem Varmax.dimensioned {m m' : Varmax α} {series exog : List (List α)}
    (h : m.fit series exog = (m', none)) : m'.forecaster.Dimensioned series.length := by
  rw [← fit_endog h]
  constructor
  · intro history horizon covariates forecast h
    exact forecastFrom_covers h
  · intro horizon covariates forecast h
    exact backcast_covers h

namespace SeriesFill

def Family.Dimensioned (family : Family α) : Prop :=
  ∀ config series covariates fitted, family.fit config series covariates = .ok fitted →
    fitted.forecaster.Dimensioned series.length

theorem Single.family_dimensioned : (Single.family : Family α).Dimensioned := by
  intro config series covariates fitted h
  unfold Single.family at h
  dsimp only at h
  split at h
  · rename_i m hfit
    obtain rfl := Except.ok.inj h
    rw [Sarimax.length_of_fit hfit]
    exact m.dimensioned
  · simp at h

theorem Joint.family_dimensioned : (Joint.family : Family α).Dimensioned := by
  intro config series covariates fitted h
  unfold Joint.family at h
  dsimp only at h
  split at h
  · rename_i m hfit
    obtain rfl := Except.ok.inj h
    exact Varmax.dimensioned hfit
  · simp at h

end SeriesFill

end Infill
