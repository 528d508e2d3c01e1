import Infill.Error
import Infill.Scalar

/-!
How well predictions match: the coefficient of determination, which is 1 for an exact prediction and
0 for the mean of the actual values.
-/

namespace Infill.Score

variable {α : Type} [Scalar α]

open Scalar (sum mean square)

/-- Squared deviations of the actual values from their mean. -/
def totalSquares (actual : List α) : α :=
  let centre := mean actual
  sum (actual.map fun a => square (a - centre))

def residualSquares (actual predicted : List α) : α :=
  sum (List.zipWith (fun a p => square (a - p)) actual predicted)

/-- Where the actual values do not vary an exact prediction scores 1 and any other 0; fewer than two
values have no score. -/
def r2 (actual predicted : List α) : Except Error α :=
  if actual.length ≠ predicted.length then
    .error (.dimensionMismatch actual.length predicted.length)
  else if actual.length < 2 then .ok Scalar.nan
  else
    let total := totalSquares actual
    let residual := residualSquares actual predicted
    .ok (if total == 0 then if residual == 0 then 1 else 0 else 1 - residual / total)

/-- The average score of several series. -/
def r2Average (actual predicted : List (List α)) : Except Error α :=
  if actual.isEmpty || actual.length ≠ predicted.length then
    .error (.dimensionMismatch actual.length predicted.length)
  else do
    return mean (← (actual.zip predicted).mapM fun (a, p) => r2 a p)

/-- The score of a whole test window and that of the accuracy window at its end. -/
structure Holdout (α : Type) where
  r2 : α
  accuracy : α

def lastValues (n : Nat) (xs : List α) : List α := xs.drop (xs.length - n)

def holdout (actual predicted : List (List α)) (accuracySize : Nat) :
    Except Error (Holdout α) := do
  let whole ← r2Average actual predicted
  let tail ← r2Average (actual.map (lastValues accuracySize))
    (predicted.map (lastValues accuracySize))
  return ⟨whole, tail⟩

/-- A score beats the best one so far if it is higher; a NaN never does, and is always beaten. -/
def improves (candidate : α) (best : Option α) : Bool :=
  if Scalar.isNaN candidate then false
  else match best with
    | none => true
    | some b => Scalar.isNaN b || decide (b < candidate)

end Infill.Score
