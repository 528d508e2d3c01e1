import Infill.Error
import Infill.Scalar

/-!
Forecasts: one list of point predictions per series, all of the same number of steps.
-/

namespace Infill

structure Forecast (α : Type) where
  point : List (List α)

namespace Forecast

variable {α : Type} [Scalar α]

def ofValues (values : List α) : Forecast α := ⟨[values]⟩

def dimensions (f : Forecast α) : Nat := f.point.length

def primary (f : Forecast α) : List α := f.point.head?.getD []

def horizon (f : Forecast α) : Nat := f.primary.length

def isEmpty (f : Forecast α) : Bool := f.point.all List.isEmpty

def isFinite (f : Forecast α) : Bool := f.point.all (·.all Scalar.isFinite)

def series (f : Forecast α) (i : Nat) : Except Error (List α) :=
  match f.point[i]? with
  | some values => .ok values
  | none => .error (.dimensionMismatch (i + 1) f.dimensions)

end Forecast

/-- A fitted model of one or more series, as the filling of gaps sees it. -/
structure Forecaster (α : Type) where
  /-- The steps that follow the first `history` observations, given the covariates of those steps. -/
  forecastFrom : (history horizon : Nat) → (covariates : List (List α)) →
    Except Error (Forecast α)
  /-- The steps in front of the first observation, in time order. -/
  backcast : (horizon : Nat) → (covariates : List (List α)) → Except Error (Forecast α)

end Infill
