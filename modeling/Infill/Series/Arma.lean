import Infill.Linear.LeastSquares
import Infill.Series.Past

/-!
Autoregressive moving-average processes. A point is explained by points and innovations some steps
back; its innovation is what is left unexplained. The estimate has two stages: a long autoregression
stands in for the innovations, and a second regression uses points and innovations together.
-/

namespace Infill

/-- Coefficients by lag. In front of the sample a point reads as the mean, and an innovation as 0. -/
structure Arma (α : Type) where
  constant : α
  ar : List (Nat × α)
  ma : List (Nat × α)
  mean : α

namespace Arma

variable {α : Type} [Scalar α]

open Scalar (sum)

/-- A point with its innovation. -/
abbrev Moment (α : Type) := α × α

def maxLag (a : Arma α) : Nat := ((a.ar ++ a.ma).map (·.1)).foldl max 0

/-- What the past explains of the next point. -/
def predictNext (a : Arma α) (past : List (Moment α)) : α :=
  a.constant
    + sum (a.ar.map fun (lag, c) => c * ((Past.back? past lag).map (·.1)).getD a.mean)
    + sum (a.ma.map fun (lag, c) => ((Past.back? past lag).map (c * ·.2)).getD 0)

/-- Takes in a point; before the longest lag the innovations are 0. -/
def observe (a : Arma α) (past : List (Moment α)) (x : α) : List (Moment α) :=
  (x, if past.length < a.maxLag then 0 else x - a.predictNext past) :: past

def history (a : Arma α) (w : List α) : List (Moment α) := w.foldl a.observe []

/-- The innovations of a series. -/
def residuals (a : Arma α) (w : List α) : List α := ((a.history w).map (·.2)).reverse

/-- Steps ahead of a past, without further innovations. -/
def ahead (a : Arma α) (past : List (Moment α)) : Nat → List α
  | 0 => []
  | steps + 1 =>
    let x := a.predictNext past
    x :: a.ahead ((x, 0) :: past) steps

/-- The continuation of a series. -/
def extend (a : Arma α) (w : List α) (steps : Nat) : List α := a.ahead (a.history w) steps

/-- The innovations left by an autoregression of the given length; 0 where it has no past. -/
def longInnovations (w : List α) (long : Nat) : Except Error (List α) := do
  let known := (Past.each w).drop long
  let fit ← LeastSquares.fit (known.map fun (past, _) => past.take long) (known.map (·.2))
  return List.replicate long 0
    ++ known.map fun (past, x) => x - fit.predict (past.take long)

/-- The regressors of a point: earlier points at the one lags, earlier innovations at the others. -/
def regressors (arLags maLags : List Nat) (past : List (Moment α)) : List α :=
  (arLags.map fun lag => ((Past.back? past lag).map (·.1)).getD 0)
    ++ maLags.map fun lag => ((Past.back? past lag).map (·.2)).getD 0

def longest (lags : List Nat) : Nat := lags.getLast?.getD 0

/-- The first stage, which is empty where no innovations are needed: the innovations, and the first
point of the second stage. -/
def firstStage (w : List α) (arLags maLags : List Nat) : Except Error (List α × Nat) :=
  let maxAr := longest arLags
  let maxMa := longest maLags
  if maxMa = 0 then .ok (List.replicate w.length 0, maxAr)
  else
    let long := 2 * max maxAr maxMa
    if w.length ≤ 2 * long then .error (.insufficientData (2 * long + 1) w.length)
    else do return (← longInnovations w long, max maxAr (long + maxMa))

/-- The process with ascending lags that explains a series best. -/
def estimate (w : List α) (arLags maLags : List Nat) : Except Error (Arma α) :=
  let mean := Scalar.mean w
  if w.isEmpty then .error (.insufficientData 1 0)
  else if arLags.isEmpty && maLags.isEmpty then .ok ⟨mean, [], [], mean⟩
  else do
    let (innovations, start) ← firstStage w arLags maLags
    let parameters := arLags.length + maLags.length + 1
    if w.length < start + parameters then
      throw (.insufficientData (start + parameters) w.length)
    let known := (Past.each (w.zip innovations)).drop start
    let fit ← LeastSquares.fit (known.map fun (past, _) => regressors arLags maLags past)
      (w.drop start)
    return {
      constant := fit.intercept
      ar := arLags.zip fit.coefficients
      ma := maLags.zip (fit.coefficients.drop arLags.length)
      mean }

end Arma
end Infill
