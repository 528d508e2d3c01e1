import Infill.Proofs.Success
import Infill.Series.Sarimax
import Infill.Series.Varmax

/-! When a prediction succeeds, and what it is then: ahead of a part of the sample the steps of the
model, all of them finite; in front of the sample the steps that a model of the reversed sample
takes. -/

namespace Infill

variable {α : Type} [Scalar α] {forecast : Forecast α}

namespace SarimaxFit

variable {order : SarimaxOrder} {f : SarimaxFit α} {horizon : Nat}

/-- Steps on the differenced scale, brought back and put on top of what the covariates explain. -/
theorem forecastFrom_ok_iff {history : Nat} {future : List (List α)} :
    f.forecastFrom order history horizon future = .ok forecast ↔ history ≤ f.residual.length ∧
      (horizon = 0 ∧ .ofValues [] = forecast ∨
        horizon ≠ 0 ∧ (f.regression.isSome = true → horizon ≤ future.length) ∧
        order.differencing.apply (f.residual.take history) ≠ [] ∧
        ∃ steps, order.differencing.integrate (f.residual.take history)
            (f.arma.extend (order.differencing.apply (f.residual.take history)) horizon) =
              .ok steps ∧
          (steps.mapIdx fun i u => u + f.explained future[i]?).all Scalar.isFinite = true ∧
          .ofValues (steps.mapIdx fun i u => u + f.explained future[i]?) = forecast) := by
  unfold forecastFrom
  rw [check_ok_iff, Nat.not_lt]
  refine and_congr_right fun _ => ?_
  by_cases hzero : horizon = 0
  · simp [hzero, pure_ok_iff]
  · simp [hzero, check_ok_iff, bind_ok_iff, checked_ok_iff]

/-- A forecast of the reversed sample, read backwards. -/
theorem backcast_ok_iff {before : List (List α)} :
    f.backcast order horizon before = .ok forecast ↔
      horizon = 0 ∧ .ofValues [] = forecast ∨
      horizon ≠ 0 ∧ (f.regression.isSome = true → horizon ≤ before.length) ∧
        ∃ reversed ahead, estimate order [f.endog.reverse] f.exog.reverse = .ok reversed ∧
          reversed.forecastFrom order reversed.residual.length horizon
            (if f.regression.isSome then (before.drop (before.length - horizon)).reverse else []) =
              .ok ahead ∧
          .ofValues ahead.primary.reverse = forecast := by
  unfold backcast
  by_cases hzero : horizon = 0
  · simp [hzero, pure_ok_iff]
  · cases hregression : f.regression with
    | none => simp [hzero, bind_ok_iff, pure_ok_iff, -bind_pure_comp]
    | some fit => simp [hzero, check_ok_iff, bind_ok_iff, pure_ok_iff, -bind_pure_comp]

end SarimaxFit

namespace Varmax

variable {m : Varmax α} {horizon : Nat}

/-- The steps of the equations behind a part of the sample. -/
theorem forecastFrom_ok_iff {history : Nat} {future : List (List α)} :
    m.forecastFrom history horizon future = .ok forecast ↔ ∃ n, m.observations = some n ∧
      1 ≤ history ∧ history ≤ n ∧ (0 < m.covariateCount → horizon ≤ future.length) ∧
      forecast.isFinite = true ∧
      ⟨JointMoment.along m.endog.length
        (m.ahead (m.history history) (m.futureRows horizon future))⟩ = forecast := by
  unfold forecastFrom
  cases m.observations with
  | none => simp [throw_ne_ok]
  | some n =>
    dsimp only
    rw [check_ok_iff, check_ok_iff, checked_ok_iff]
    simp only [Bool.or_eq_true, Bool.and_eq_true, decide_eq_true_eq, not_or, not_and, Nat.not_lt,
      Option.some.injEq, exists_eq_left', and_assoc, ← Nat.one_le_iff_ne_zero]
    refine and_congr_right fun _ => and_congr_right fun _ => and_congr_right fun _ => ?_
    exact and_congr_left fun h => by rw [h]

/-- A forecast of the reversed sample, every series read backwards. -/
theorem backcast_ok_iff {before : List (List α)} :
    m.backcast horizon before = .ok forecast ↔ m.observations.isSome = true ∧
      (0 < m.covariateCount → horizon ≤ before.length) ∧
      ∃ reversed ahead,
        (new m.p m.q : Varmax α).fit (m.endog.map List.reverse) m.exog.reverse =
          (reversed, none) ∧
        reversed.forecast horizon (if 0 < m.covariateCount then
          (before.drop (before.length - horizon)).reverse else []) = .ok ahead ∧
        ⟨ahead.point.map List.reverse⟩ = forecast := by
  unfold backcast
  dsimp only
  rw [check_ok_iff, check_ok_iff]
  refine and_congr (by simp [← Option.ne_none_iff_isSome]) (and_congr (by simp) ?_)
  rcases (new m.p m.q : Varmax α).fit (m.endog.map List.reverse) m.exog.reverse with
    ⟨reversed, - | e⟩
  · simp [bind_ok_iff, pure_ok_iff, -bind_pure_comp]
  · simp [throw_ne_ok]

end Varmax

end Infill
