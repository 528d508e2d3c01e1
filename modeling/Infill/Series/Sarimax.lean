import Infill.Series.Arma
import Infill.Series.Differencing
import Infill.Series.Forecast
import Infill.Table.Axis

/-!
The seasonal model of a single series. The series is regressed on its covariates, what is left is
differenced, and the differences are fitted as an autoregressive moving-average process. A forecast
goes the way back. A backcast is the forecast of the same order fitted to the reversed sample.
-/

namespace Infill

/-- The order `(p, d, q)x(P, D, Q, s)`; a period of 0 leaves out the seasonal part. -/
structure SarimaxOrder where
  p : Nat
  d : Nat
  q : Nat
  seasonalP : Nat
  seasonalD : Nat
  seasonalQ : Nat
  period : Nat
  deriving DecidableEq, Repr

namespace SarimaxOrder

/-- The lags 1 to `regular` and the multiples of the period, ascending and distinct. -/
def lagSet (regular seasonal period : Nat) : List Nat :=
  let seasons := if 0 < period then (List.range seasonal).map fun j => (j + 1) * period else []
  Axis.ascending (fun a b => decide (a < b)) ((List.range regular).map (· + 1) ++ seasons)

def arLags (o : SarimaxOrder) : List Nat := lagSet o.p o.seasonalP o.period

def maLags (o : SarimaxOrder) : List Nat := lagSet o.q o.seasonalQ o.period

def differencing (o : SarimaxOrder) : Differencing := ⟨o.d, o.seasonalD, o.period⟩

def text (o : SarimaxOrder) : String :=
  s!"({o.p},{o.d},{o.q})x({o.seasonalP},{o.seasonalD},{o.seasonalQ},{o.period})"

end SarimaxOrder

variable {α : Type} [Scalar α]

/-- The result of a fit, with the sample it was fitted to. -/
structure SarimaxFit (α : Type) where
  regression : Option (LeastSquares.Fit α)
  arma : Arma α
  /-- The series less its regression on the covariates. -/
  residual : List α
  endog : List α
  exog : List (List α)

namespace SarimaxFit

/-- The regression on the covariates, if there are any. -/
def regress (y : List α) (exog : List (List α)) :
    Except Error (Option (LeastSquares.Fit α)) :=
  if (exog.head?.getD []).isEmpty then .ok none
  else if exog.length ≠ y.length then .error (.dimensionMismatch y.length exog.length)
  else do return some (← LeastSquares.fit exog y)

/-- What the regression does not explain. -/
def unexplained (y : List α) (exog : List (List α)) :
    Option (LeastSquares.Fit α) → List α
  | some fit => List.zipWith (fun v row => v - fit.predict row) y exog
  | none => y

def estimate (order : SarimaxOrder) (endog exog : List (List α)) :
    Except Error (SarimaxFit α) := do
  let y ← match endog with
    | [y] => pure y
    | _ => throw (.dimensionMismatch 1 endog.length)
  if y.isEmpty then throw .emptyData
  let regression ← regress y exog
  let residual := unexplained y exog regression
  let w := order.differencing.apply residual
  let arma ← Arma.estimate w order.arLags order.maLags
  if (arma.residuals w).all Scalar.isFinite then
    return { regression, arma, residual, endog := y, exog }
  else throw (.nonConvergence s!"SARIMAX{order.text} produced non-finite residuals")

/-- The part of a value that its covariates explain. -/
def explained (f : SarimaxFit α) (row : Option (List α)) : α :=
  match f.regression, row with
  | some fit, some row => fit.predict row
  | _, _ => 0

def forecastFrom (order : SarimaxOrder) (f : SarimaxFit α) (history horizon : Nat)
    (future : List (List α)) : Except Error (Forecast α) := do
  if f.residual.length < history then
    throw (.invalidParameter
      s!"history of {history} exceeds {f.residual.length} fitted observations")
  if horizon = 0 then return Forecast.ofValues []
  if f.regression.isSome && future.length < horizon then
    throw (.dimensionMismatch horizon future.length)
  let chain := order.differencing
  let past := f.residual.take history
  let w := chain.apply past
  if w.isEmpty then throw (.insufficientData (chain.loss + 1) history)
  let steps ← chain.integrate past (f.arma.extend w horizon)
  let values := steps.mapIdx fun i u => u + f.explained future[i]?
  if values.all Scalar.isFinite then return Forecast.ofValues values
  else throw (.nonConvergence s!"SARIMAX{order.text} forecast diverged")

def backcast (order : SarimaxOrder) (f : SarimaxFit α) (horizon : Nat)
    (before : List (List α)) : Except Error (Forecast α) := do
  if horizon = 0 then return Forecast.ofValues []
  let future ← match f.regression with
    | none => pure []
    | some _ =>
      if before.length < horizon then throw (.dimensionMismatch horizon before.length)
      else pure (before.drop (before.length - horizon)).reverse
  let reversed ← estimate order [f.endog.reverse] f.exog.reverse
  let forecast ← reversed.forecastFrom order reversed.residual.length horizon future
  return Forecast.ofValues forecast.primary.reverse

end SarimaxFit

/-- The model: its order and, once fitted, the fit. -/
structure Sarimax (α : Type) where
  order : SarimaxOrder
  fitted : Option (SarimaxFit α)

namespace Sarimax

def new (order : SarimaxOrder) : Sarimax α := ⟨order, none⟩

/-- A fit that fails keeps the last one whole. -/
def fit (m : Sarimax α) (endog exog : List (List α)) : Sarimax α × Option Error :=
  match SarimaxFit.estimate m.order endog exog with
  | .ok f => ({ m with fitted := some f }, none)
  | .error e => (m, some e)

/-- The number of fitted observations. -/
def observations (m : Sarimax α) : Option Nat := m.fitted.map (·.residual.length)

def regression (m : Sarimax α) : Option (LeastSquares.Fit α) := m.fitted.bind (·.regression)

def arCoefficients (m : Sarimax α) : List (Nat × α) := (m.fitted.map (·.arma.ar)).getD []

def maCoefficients (m : Sarimax α) : List (Nat × α) := (m.fitted.map (·.arma.ma)).getD []

def forecastFrom (m : Sarimax α) (history horizon : Nat) (future : List (List α)) :
    Except Error (Forecast α) :=
  match m.fitted with
  | some f => f.forecastFrom m.order history horizon future
  | none => .error .fitRequired

/-- The steps that follow the whole sample. -/
def forecast (m : Sarimax α) (horizon : Nat) (future : List (List α)) :
    Except Error (Forecast α) :=
  match m.observations with
  | some n => m.forecastFrom n horizon future
  | none => .error .fitRequired

def backcast (m : Sarimax α) (horizon : Nat) (before : List (List α)) :
    Except Error (Forecast α) :=
  match m.fitted with
  | some f => f.backcast m.order horizon before
  | none => .error .fitRequired

def forecaster (m : Sarimax α) : Forecaster α := ⟨m.forecastFrom, m.backcast⟩

end Sarimax
end Infill
