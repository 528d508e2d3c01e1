import Infill.Proofs.Series.Dimensions
import Infill.Proofs.Series.JointTotal

/-! The order of columns. Ahead of a part of the sample and in front of it, the rearranged model
predicts the rearranged series; a prediction in front of the sample is one of the reversed sample,
which is rearranged like the sample. In the model of a single series the covariates serve a
regression only, and what it explains does not depend on their order. So the order in which series
and covariates are handed over is a matter of display. -/

namespace Infill

open Exact (NumbersOf Numbers)
open LeastSquares (Fit)

namespace Varmax

section Predictions

variable {α : Type} [Scalar α] {m : Varmax α} {horizon : Nat}

theorem forecast_eq {n : Nat} (h : m.observations = some n) (future : List (List α)) :
    m.forecast horizon future = m.forecastFrom n horizon future := by
  rw [forecast, h]

/-- A model without covariates does not look at those of the future. -/
theorem forecastFrom_uncovered (h : m.covariateCount = 0) (history : Nat)
    (future future' : List (List α)) :
    m.forecastFrom history horizon future = m.forecastFrom history horizon future' := by
  simp [forecastFrom, futureRows, h]

theorem backcast_uncovered (h : m.covariateCount = 0) (before before' : List (List α)) :
    m.backcast horizon before = m.backcast horizon before' := by
  simp [backcast, h]

/-- The covariates of the steps in front of the sample, as those of the steps ahead of the reversed
one. -/
def mirroredRows (m : Varmax α) (horizon : Nat) (before : List (List α)) : List (List α) :=
  if 0 < m.covariateCount then (before.drop (before.length - horizon)).reverse else []

theorem backcast_eq {n : Nat} (h : m.observations = some n) (before : List (List α)) :
    m.backcast horizon before =
      if 0 < m.covariateCount ∧ before.length < horizon then
        .error (.dimensionMismatch horizon before.length)
      else match (new m.p m.q : Varmax α).fit (m.endog.map List.reverse) m.exog.reverse with
        | (_, some e) => .error e
        | (reversed, none) => (reversed.forecast horizon (m.mirroredRows horizon before)).map
            fun f => ⟨f.point.map List.reverse⟩ := by
  unfold backcast mirroredRows
  rw [h]
  by_cases hshort : 0 < m.covariateCount ∧ before.length < horizon
  · simp only [hshort, decide_true, Bool.and_self, if_true]
    rfl
  · have hshort' : ¬ (decide (0 < m.covariateCount) && decide (before.length < horizon)) = true := by
      simpa using hshort
    rw [if_neg hshort]
    dsimp only [Option.isNone_some]
    rw [if_neg Bool.false_ne_true, if_neg hshort']
    rcases (new m.p m.q : Varmax α).fit (m.endog.map List.reverse) m.exog.reverse with
      ⟨reversed, - | e⟩
    · dsimp only
      cases reversed.forecast horizon (if 0 < m.covariateCount then
        (before.drop (before.length - horizon)).reverse else []) <;> rfl
    · rfl

end Predictions

variable {K : Type} [ExactNumber K] [TrueRoot K] {k n : Nat} {σ τ : List Nat}
  {m : Varmax (Exact K)}

theorem backcast_arranged (hm : m.Fitted k n) (hσ : Arranges k σ) (hτ : Arranges m.endog.length τ)
    (horizon : Nat) {before : List (List (Exact K))} (hbefore : ∀ row ∈ before, row.length = k) :
    (m.arranged σ τ).backcast horizon (before.map (pick σ)) =
      (m.backcast horizon before).map (Forecast.arranged τ) := by
  have hobserved := observations_eq hm.sized.equations_ne_nil hm.sized.endog_ne_nil hm.sized.series
  have hrows : (m.arranged σ τ).mirroredRows horizon (before.map (pick σ)) =
      (m.mirroredRows horizon before).map (pick σ) := by
    unfold mirroredRows
    rw [apply_ite (List.map (pick σ)), List.map_reverse, List.map_drop, List.map_nil,
      List.length_map]
    rfl
  have hwidth : ∀ row ∈ m.mirroredRows horizon before, row.length = k := by
    intro row hrow
    unfold mirroredRows at hrow
    split_ifs at hrow
    · exact hbefore row (List.mem_of_mem_drop (List.mem_reverse.1 hrow))
    · cases hrow
  have hendog : (m.arranged σ τ).endog.map List.reverse = pick τ (m.endog.map List.reverse) :=
    (pick_map τ _ m.endog).symm
  have hexog : (m.arranged σ τ).exog.reverse = m.exog.reverse.map (pick σ) :=
    List.map_reverse.symm
  have hcovered : (m.arranged σ τ).covariateCount = m.covariateCount := rfl
  have hp : (m.arranged σ τ).p = m.p := rfl
  have hq : (m.arranged σ τ).q = m.q := rfl
  have hcount : Arranges (m.endog.map List.reverse).length τ := by rwa [List.length_map]
  have hreversed := hm.sample.reverse.fit_arranged (m := new m.p m.q) hσ hcount hm.lags
  rw [backcast_eq hobserved, backcast_eq (observations_arranged hm.sized hτ), hcovered, hp, hq,
    hendog, hexog, hrows, List.length_map]
  split_ifs
  · rfl
  rcases hreversed with ⟨e, _, _, hfit, hfit'⟩ | ⟨reversed, hfit, hfit', hr, hseries⟩
  · rw [hfit, hfit']
    rfl
  · have hτ' : Arranges reversed.endog.length τ := hseries ▸ hcount
    have hahead := observations_eq hr.sized.equations_ne_nil hr.sized.endog_ne_nil hr.sized.series
    rw [hfit, hfit']
    dsimp only
    rw [forecast_eq hahead, forecast_eq (observations_arranged hr.sized hτ'),
      forecastFrom_arranged hr.sized (hr.covered ▸ hσ) hτ' n horizon (hr.covered ▸ hwidth)]
    cases reversed.forecastFrom n horizon (m.mirroredRows horizon before) with
    | error e => rfl
    | ok f =>
      have hpoint : (pick τ f.point).map List.reverse = pick τ (f.point.map List.reverse) :=
        (pick_map τ _ f.point).symm
      dsimp only [Except.map, Forecast.arranged]
      rw [hpoint]

end Varmax

namespace SarimaxFit

section Forecasts

variable {α : Type} [Scalar α] {f : SarimaxFit α} {k : Nat} {σ : List Nat}

def arranged (σ : List Nat) (f : SarimaxFit α) : SarimaxFit α :=
  { f with regression := f.regression.map (Fit.arranged σ), exog := f.exog.map (pick σ) }

def OfWidth (regression : Option (Fit α)) (k : Nat) : Prop :=
  ∀ fit ∈ regression, fit.coefficients.length = k

variable [Scalar.SumsUnordered α]

theorem explained_arranged (hσ : Arranges k σ) (hf : OfWidth f.regression k) {row : Option (List α)}
    (hrow : ∀ values ∈ row, values.length = k) :
    (f.arranged σ).explained (row.map (pick σ)) = f.explained row := by
  rcases f with ⟨- | fit, arma, residual, endog, exog⟩ <;> rcases row with - | values <;> try rfl
  obtain rfl := hrow values rfl
  exact Fit.predict_arranged hσ (hf fit rfl)

/-- Nothing else of a forecast looks at the covariates. -/
theorem forecastFrom_arranged (hσ : Arranges k σ) (hf : OfWidth f.regression k)
    (order : SarimaxOrder) (history horizon : Nat) {future : List (List α)}
    (hfuture : ∀ row ∈ future, row.length = k) :
    (f.arranged σ).forecastFrom order history horizon (future.map (pick σ)) =
      f.forecastFrom order history horizon future := by
  have hregression : (f.arranged σ).regression.isSome = f.regression.isSome := Option.isSome_map
  have hexplained : ∀ i : Nat, (f.arranged σ).explained (future.map (pick σ))[i]? =
      f.explained future[i]? := fun i => by
    rw [List.getElem?_map]
    exact explained_arranged hσ hf fun values hvalues => hfuture values (List.mem_of_getElem? hvalues)
  have hresidual : (f.arranged σ).residual = f.residual := rfl
  have harma : (f.arranged σ).arma = f.arma := rfl
  unfold forecastFrom
  simp only [hregression, hexplained, hresidual, harma, List.length_map]

end Forecasts

variable {K : Type} [ExactNumber K] {y : List (Exact K)} {endog exog : List (List (Exact K))} {k : Nat}
  {σ : List Nat} {regression : Option (Fit (Exact K))} {f : SarimaxFit (Exact K)}
  {order : SarimaxOrder}

theorem regress_arranged [TrueRoot K] (hσ : Arranges k σ) (hexog : ∀ row ∈ exog, NumbersOf k row)
    (hy : Numbers y) : regress y (exog.map (pick σ)) =
      (regress y exog).map (Option.map (Fit.arranged σ)) := by
  have hempty : ((exog.map (pick σ)).head?.getD []).isEmpty = (exog.head?.getD []).isEmpty := by
    cases exog with
    | nil => rfl
    | cons row rest =>
      have hrow : Arranges row.length σ := (hexog row List.mem_cons_self).1 ▸ hσ
      exact hrow.pick_perm.isEmpty_eq
  unfold regress
  rw [hempty, List.length_map]
  split_ifs with hnone hlength
  · rfl
  · rfl
  · rw [LeastSquares.fit_arranged hσ hexog ⟨(not_not.1 hlength).symm, hy⟩]
    cases LeastSquares.fit exog y <;> rfl

theorem regress_ofWidth (hexog : ∀ row ∈ exog, NumbersOf k row)
    (h : regress y exog = .ok regression) : OfWidth regression k := by
  unfold regress at h
  split_ifs at h
  · obtain rfl := Except.ok.inj h
    exact fun fit hfit => by cases hfit
  · obtain ⟨fit, hfit, h⟩ := bind_ok_iff.1 h
    obtain rfl := pure_ok_iff.1 h
    obtain ⟨-, -, hcovers⟩ := LeastSquares.fit_covers (fun row hrow => (hexog row hrow).1) hfit
    rintro _ ⟨⟩
    exact hcovers.length

theorem unexplained_arranged (hσ : Arranges k σ) (hexog : ∀ row ∈ exog, NumbersOf k row)
    (h : OfWidth regression k) :
    unexplained y (exog.map (pick σ)) (regression.map (Fit.arranged σ)) =
      unexplained y exog regression := by
  cases regression with
  | none => rfl
  | some fit =>
    have hpredicts : (exog.map (pick σ)).map (fit.arranged σ).predict = exog.map fit.predict := by
      rw [List.map_map]
      refine List.map_congr_left fun row hrow => ?_
      have hlength := (hexog row hrow).1
      exact Fit.predict_arranged (hlength ▸ hσ) ((h fit rfl).trans hlength.symm)
    have hresidual : ∀ (fit : Fit (Exact K)) rows, unexplained y rows (some fit) =
        List.zipWith (· - ·) y (rows.map fit.predict) := fun fit rows => by
      rw [unexplained, List.zipWith_map_right]
    rw [Option.map_some, hresidual, hresidual, hpredicts]

theorem estimate_arranged [TrueRoot K] (hσ : Arranges k σ) (hexog : ∀ row ∈ exog, NumbersOf k row)
    (hendog : ∀ y ∈ endog, Numbers y) : estimate order endog (exog.map (pick σ)) =
      (estimate order endog exog).map (arranged σ) := by
  match endog with
  | [] => rfl
  | _ :: _ :: _ => rfl
  | [y] =>
    unfold estimate
    dsimp only
    rw [pure_bind, pure_bind]
    split_ifs
    · rfl
    rw [regress_arranged hσ hexog (hendog y List.mem_cons_self)]
    cases hregress : regress y exog with
    | error e => rfl
    | ok regression =>
      have hsame := unexplained_arranged (y := y) hσ hexog (regress_ofWidth hexog hregress)
      dsimp only [Except.map, bind, Except.bind]
      rw [hsame]
      cases Arma.estimate (order.differencing.apply (unexplained y exog regression)) order.arLags
        order.maLags with
      | error e => rfl
      | ok arma =>
        dsimp only
        split_ifs <;> rfl

structure Fitted (f : SarimaxFit (Exact K)) (k : Nat) : Prop where
  endog : Numbers f.endog
  exog : ∀ row ∈ f.exog, NumbersOf k row
  regression : OfWidth f.regression k

theorem estimate_fitted (hexog : ∀ row ∈ exog, NumbersOf k row) (hendog : ∀ y ∈ endog, Numbers y)
    (h : estimate order endog exog = .ok f) : f.Fitted k := by
  obtain ⟨y, rfl⟩ := List.length_eq_one_iff.1 (estimate_endog h)
  unfold estimate at h
  dsimp only at h
  rw [pure_bind, check_ok_iff] at h
  obtain ⟨regression, hregress, h⟩ := bind_ok_iff.1 h.2
  obtain ⟨arma, -, h⟩ := bind_ok_iff.1 h
  obtain ⟨-, rfl⟩ := checked_ok_iff.1 h
  exact ⟨hendog y List.mem_cons_self, hexog, regress_ofWidth hexog hregress⟩

def reversedForecast {α : Type} [Scalar α] (order : SarimaxOrder) (f : SarimaxFit α) (horizon : Nat)
    (future : List (List α)) : Except Error (Forecast α) := do
  let reversed ← estimate order [f.endog.reverse] f.exog.reverse
  let forecast ← reversed.forecastFrom order reversed.residual.length horizon future
  return Forecast.ofValues forecast.primary.reverse

theorem backcast_eq {α : Type} [Scalar α] (order : SarimaxOrder) (f : SarimaxFit α) (horizon : Nat)
    (before : List (List α)) : f.backcast order horizon before =
      if horizon = 0 then .ok (.ofValues [])
      else match f.regression with
        | none => f.reversedForecast order horizon []
        | some _ =>
          if before.length < horizon then .error (.dimensionMismatch horizon before.length)
          else f.reversedForecast order horizon (before.drop (before.length - horizon)).reverse := by
  unfold backcast reversedForecast
  cases f.regression with
  | none => split_ifs <;> rfl
  | some fit => split_ifs <;> rfl

theorem reversedForecast_arranged [TrueRoot K] (hσ : Arranges k σ) (hf : f.Fitted k) (horizon : Nat)
    {future : List (List (Exact K))} (hfuture : ∀ row ∈ future, row.length = k) :
    (f.arranged σ).reversedForecast order horizon (future.map (pick σ)) =
      f.reversedForecast order horizon future := by
  have hexog : ∀ row ∈ f.exog.reverse, NumbersOf k row := fun row hrow =>
    hf.exog row (List.mem_reverse.1 hrow)
  have hendog : ∀ y ∈ [f.endog.reverse], Numbers y := by simpa using hf.endog.reverse
  have hestimate : estimate order [(f.arranged σ).endog.reverse] (f.arranged σ).exog.reverse =
      (estimate order [f.endog.reverse] f.exog.reverse).map (arranged σ) := by
    rw [← estimate_arranged hσ hexog hendog, List.map_reverse]
    rfl
  unfold reversedForecast
  rw [hestimate]
  cases hreversed : estimate order [f.endog.reverse] f.exog.reverse with
  | error e => rfl
  | ok reversed =>
    have hforecast := forecastFrom_arranged hσ (estimate_fitted hexog hendog hreversed).regression
      order reversed.residual.length horizon hfuture
    exact congrArg (· >>= fun forecast => pure (Forecast.ofValues forecast.primary.reverse)) hforecast

theorem backcast_arranged [TrueRoot K] (hσ : Arranges k σ) (hf : f.Fitted k) (horizon : Nat)
    {before : List (List (Exact K))} (hbefore : ∀ row ∈ before, row.length = k) :
    (f.arranged σ).backcast order horizon (before.map (pick σ)) =
      f.backcast order horizon before := by
  have hregression : (f.arranged σ).regression = f.regression.map (Fit.arranged σ) := rfl
  rw [backcast_eq, backcast_eq, hregression, List.length_map, ← List.map_drop, ← List.map_reverse]
  cases f.regression with
  | none =>
    have hnone : ∀ row ∈ ([] : List (List (Exact K))), row.length = k := List.forall_mem_nil _
    exact congrArg (ite _ _) (reversedForecast_arranged hσ hf horizon hnone)
  | some fit =>
    have hrows : ∀ row ∈ (before.drop (before.length - horizon)).reverse, row.length = k :=
      fun row hrow => hbefore row (List.mem_of_mem_drop (List.mem_reverse.1 hrow))
    dsimp only [Option.map_some]
    rw [reversedForecast_arranged hσ hf horizon hrows]

end SarimaxFit

/-- A forecaster answers for covariates in order `σ` what a model answers for them in the order that
they have, up to a change of the answers. -/
structure Forecaster.Follows {α : Type} (reordered model : Forecaster α) (k : Nat) (σ : List Nat)
    (change : Forecast α → Forecast α) : Prop where
  forecastFrom : ∀ history horizon future, (∀ row ∈ future, row.length = k) →
    reordered.forecastFrom history horizon (future.map (pick σ)) =
      (model.forecastFrom history horizon future).map change
  backcast : ∀ horizon before, (∀ row ∈ before, row.length = k) →
    reordered.backcast horizon (before.map (pick σ)) = (model.backcast horizon before).map change

/-- Two fits succeed or fail together, and where they succeed their models are related. -/
def FitsAlike {β : Type} (R : β → β → Prop) (x y : β × Option Error) : Prop :=
  (x.2 = none ↔ y.2 = none) ∧ ∀ b c, x = (b, none) → y = (c, none) → R b c

namespace FitsAlike

variable {β : Type} {R : β → β → Prop} {b c : β}

theorem failed (e e' : Error) : FitsAlike R (b, some e) (c, some e') :=
  ⟨by simp, fun _ _ h => by cases h⟩

theorem fitted (h : R b c) : FitsAlike R (b, none) (c, none) :=
  ⟨Iff.rfl, by rintro _ _ ⟨⟩ ⟨⟩; exact h⟩

end FitsAlike

section Orders

variable {K : Type} [ExactNumber K] [TrueRoot K] {k n : Nat} {σ τ : List Nat}
  {series exog : List (List (Exact K))}

/-- A single series is fitted alike, and its predictions are the same. -/
theorem Sarimax.fit_follows (hσ : Arranges k σ) (hseries : ∀ xs ∈ series, Numbers xs)
    (hexog : ∀ row ∈ exog, NumbersOf k row) (m : Sarimax (Exact K)) :
    FitsAlike (fun reordered model => reordered.forecaster.Follows model.forecaster k σ id)
      (m.fit series (exog.map (pick σ))) (m.fit series exog) := by
  unfold fit
  rw [SarimaxFit.estimate_arranged hσ hexog hseries]
  cases hestimate : SarimaxFit.estimate m.order series exog with
  | error e => exact .failed e e
  | ok f =>
    have hf := SarimaxFit.estimate_fitted hexog hseries hestimate
    have hid : ∀ x : Except Error (Forecast (Exact K)), x.map id = x := fun x => by cases x <;> rfl
    refine .fitted ⟨fun history horizon future hfuture => ?_, fun horizon before hbefore => ?_⟩
    · rw [hid]
      exact SarimaxFit.forecastFrom_arranged hσ hf.regression m.order history horizon hfuture
    · rw [hid]
      exact SarimaxFit.backcast_arranged hσ hf horizon hbefore

namespace Varmax

variable {m : Varmax (Exact K)}

theorem Fitted.follows (hm : m.Fitted k n) (hσ : Arranges k σ) (hτ : Arranges m.endog.length τ) :
    (m.arranged σ τ).forecaster.Follows m.forecaster k σ (Forecast.arranged τ) where
  forecastFrom history horizon _ hfuture :=
    forecastFrom_arranged hm.sized (hm.covered.symm ▸ hσ) hτ history horizon
      (hm.covered.symm ▸ hfuture)
  backcast horizon _ hbefore := backcast_arranged hm hσ hτ horizon hbefore

/-- A model without covariates follows whatever the order is of those that it does not look at. -/
theorem Fitted.follows_uncovered (hm : m.Fitted 0 n) (hτ : Arranges m.endog.length τ) (k : Nat)
    (σ : List Nat) :
    (m.arranged [] τ).forecaster.Follows m.forecaster k σ (Forecast.arranged τ) := by
  have hnone := hm.follows (List.Perm.refl []) hτ
  have hcovered : (m.arranged [] τ).covariateCount = 0 := hm.covered
  constructor
  · intro history horizon future _
    calc (m.arranged [] τ).forecastFrom history horizon (future.map (pick σ))
      _ = (m.arranged [] τ).forecastFrom history horizon (([] : List (List _)).map (pick [])) :=
        forecastFrom_uncovered hcovered history _ _
      _ = (m.forecastFrom history horizon []).map (Forecast.arranged τ) :=
        hnone.forecastFrom history horizon [] (List.forall_mem_nil _)
      _ = (m.forecastFrom history horizon future).map (Forecast.arranged τ) := by
        rw [forecastFrom_uncovered hm.covered history [] future]
  · intro horizon before _
    calc (m.arranged [] τ).backcast horizon (before.map (pick σ))
      _ = (m.arranged [] τ).backcast horizon (([] : List (List _)).map (pick [])) :=
        backcast_uncovered hcovered _ _
      _ = (m.backcast horizon []).map (Forecast.arranged τ) :=
        hnone.backcast horizon [] (List.forall_mem_nil _)
      _ = (m.backcast horizon before).map (Forecast.arranged τ) := by
        rw [backcast_uncovered hm.covered [] before]

omit [ExactNumber K] [TrueRoot K] in
theorem checkShape_arranged_iff {p q : Nat} (σ : List Nat) (hτ : Arranges series.length τ) :
    checkShape p q (pick τ series) (exog.map (pick σ)) = .ok () ↔
      checkShape p q series exog = .ok () := by
  have hpresent : pick τ series = [] ↔ series = [] := by
    rw [← List.length_eq_zero_iff, hτ.length_pick, List.length_eq_zero_iff]
  simp only [checkShape_ok_iff, ne_eq, hpresent, hτ.pick_perm.mem_iff, List.length_map,
    List.map_eq_nil_iff]

theorem fit_follows (hσ : Arranges k σ) (hτ : Arranges series.length τ)
    (hseries : ∀ xs ∈ series, Numbers xs) (hexog : ∀ row ∈ exog, NumbersOf k row)
    (m : Varmax (Exact K)) : FitsAlike (fun reordered model =>
        reordered.forecaster.Follows model.forecaster k σ (Forecast.arranged τ))
      (m.fit (pick τ series) (exog.map (pick σ))) (m.fit series exog) := by
  cases hshape : checkShape m.p m.q series exog with
  | error e =>
    cases hshape' : checkShape m.p m.q (pick τ series) (exog.map (pick σ)) with
    | error e' =>
      rw [fit_refused hshape, fit_refused hshape']
      exact .failed e' e
    | ok => simp [(checkShape_arranged_iff σ hτ).1 hshape'] at hshape
  | ok =>
    obtain ⟨hpq, hpresent, n, hn, hlengths, hrows⟩ := checkShape_ok_iff.1 hshape
    have hnumbers : ∀ xs ∈ series, NumbersOf n xs := fun xs hxs => ⟨hlengths xs hxs, hseries xs hxs⟩
    rcases hrows with hlength | rfl
    · have h : Sample series exog k n := ⟨hn, hpresent, hnumbers, hexog, .inl hlength⟩
      rcases h.fit_arranged hσ hτ hpq with ⟨e, _, _, hfit, hfit'⟩ | ⟨m', hfit, hfit', hm', rfl⟩
      · rw [hfit, hfit']
        exact .failed e e
      · rw [hfit, hfit']
        exact .fitted (hm'.follows hσ hτ)
    · have h : Sample series [] 0 n := ⟨hn, hpresent, hnumbers, List.forall_mem_nil _, .inr ⟨rfl, rfl⟩⟩
      rcases h.fit_arranged (σ := []) (List.Perm.refl _) hτ hpq with
        ⟨e, _, _, hfit, hfit'⟩ | ⟨m', hfit, hfit', hm', rfl⟩
      · rw [List.map_nil] at hfit' ⊢
        rw [hfit, hfit']
        exact .failed e e
      · rw [List.map_nil] at hfit' ⊢
        rw [hfit, hfit']
        exact .fitted (hm'.follows_uncovered hτ k σ)

end Varmax

/-- The order of columns does not matter. The joint model is fitted to series and covariates in any
order as to those in the order that they have, and predicts the same series in that order; the model
of a single series predicts the same whatever the order of its covariates is. -/
theorem predictions_follow_columns (hσ : Arranges k σ) (hτ : Arranges series.length τ)
    (hseries : ∀ xs ∈ series, Numbers xs) (hexog : ∀ row ∈ exog, NumbersOf k row) :
    (∀ m : Varmax (Exact K), FitsAlike (fun reordered model =>
        reordered.forecaster.Follows model.forecaster k σ (Forecast.arranged τ))
      (m.fit (pick τ series) (exog.map (pick σ))) (m.fit series exog)) ∧
    ∀ (m : Sarimax (Exact K)) (endog : List (List (Exact K))), (∀ xs ∈ endog, Numbers xs) →
      FitsAlike (fun reordered model => reordered.forecaster.Follows model.forecaster k σ id)
        (m.fit endog (exog.map (pick σ))) (m.fit endog exog) :=
  ⟨Varmax.fit_follows hσ hτ hseries hexog, fun m _ hendog => m.fit_follows hσ hendog hexog⟩

end Orders

noncomputable def tenTimes : List (List (Exact ℝ)) :=
  [[1, 2, 4, 3, 5, 2, 6, 4, 7, 3], [2, 0, 1, 3, 1, 4, 2, 5, 3, 6]].map fun xs : List Nat =>
    (xs.map fun x => (x : ℝ)).map .number

noncomputable def tenRows : List (List (Exact ℝ)) :=
  (List.range 10).map fun t => ([t, t ^ 2].map fun x => (x : ℝ)).map .number

/-- Ten times are enough for one lag of each kind: the model is fitted, and follows when both the series
and the covariates are swapped. -/
theorem swappedColumns_follow :
    ((Varmax.new 1 1).fit tenTimes tenRows).2 = none ∧
    FitsAlike (fun reordered model =>
        reordered.forecaster.Follows model.forecaster 2 [1, 0] (Forecast.arranged [1, 0]))
      ((Varmax.new 1 1).fit (pick [1, 0] tenTimes) (tenRows.map (pick [1, 0])))
      ((Varmax.new 1 1).fit tenTimes tenRows) ∧
    ∀ order : SarimaxOrder, FitsAlike (fun reordered model =>
        reordered.forecaster.Follows model.forecaster 2 [1, 0] id)
      ((Sarimax.new order).fit (tenTimes.take 1) (tenRows.map (pick [1, 0])))
      ((Sarimax.new order).fit (tenTimes.take 1) tenRows) := by
  have hswap : Arranges 2 [1, 0] := List.Perm.swap 0 1 []
  have hseries : ∀ xs ∈ tenTimes, NumbersOf 10 xs := by
    rw [tenTimes, List.forall_mem_map, List.forall_mem_cons, List.forall_mem_singleton]
    exact ⟨⟨rfl, Exact.numbers_map _⟩, ⟨rfl, Exact.numbers_map _⟩⟩
  have hrows : ∀ row ∈ tenRows, NumbersOf 2 row := by
    rw [tenRows, List.forall_mem_map]
    exact fun t _ => ⟨rfl, Exact.numbers_map _⟩
  have hsample : Varmax.Sample tenTimes tenRows 2 10 :=
    ⟨by decide, List.cons_ne_nil _ _, hseries, hrows, .inl (by simp [tenRows])⟩
  have hfitted : ((Varmax.new 1 1).fit tenTimes tenRows).2 = none :=
    hsample.fit_total (m := .new 1 1) (by decide) (by decide) (by decide)
  have hcount : Arranges tenTimes.length [1, 0] := hswap
  obtain ⟨hjoint, hsingle⟩ := predictions_follow_columns hswap hcount
    (fun xs hxs => (hseries xs hxs).2) hrows
  exact ⟨hfitted, hjoint _, fun order =>
    hsingle _ _ fun xs hxs => (hseries xs (List.mem_of_mem_take hxs)).2⟩

end Infill
