import Infill.Score
import Infill.Split

/-!
Cross-validation. The rows are cut into consecutive folds whose sizes differ by at most one, the
larger ones first; every fold is predicted by a model that has seen all other rows.
-/

namespace Infill.Folds

variable {α : Type} [Scalar α]

/-- Consecutive windows of the given sizes. -/
def windowsFrom (start : Nat) : List Nat → List Window
  | [] => []
  | size :: sizes => ⟨start, start + size⟩ :: windowsFrom (start + size) sizes

def sizes (rows folds : Nat) : List Nat :=
  (List.range folds).map fun i => rows / folds + if i < rows % folds then 1 else 0

def windows (rows folds : Nat) : Except Error (List Window) :=
  if folds < 2 || rows < folds then
    .error (.invalidParameter s!"cannot split {rows} rows into {folds} folds")
  else .ok (windowsFrom 0 (sizes rows folds))

/-- A fitted model: one prediction per row, or the reason why there is none. -/
abbrev Predictor (α : Type) := List (List α) → Except Error (List α)

/-- Fits a fresh model to rows and their targets. -/
abbrev Trainer (α : Type) := List (List α) → List α → Except Error (Predictor α)

def foldScore (train : Trainer α) (x : List (List α)) (y : List α) (fold : Window) :
    Except Error α := do
  let predict ← train (fold.outside x) (fold.outside y)
  Score.r2 (fold.inside y) (← predict (fold.inside x))

structure Report (α : Type) where
  scores : List α
  mean : α

def crossValidate (train : Trainer α) (x : List (List α)) (y : List α) (folds : Nat) :
    Except Error (Report α) :=
  if x.length ≠ y.length then .error (.dimensionMismatch y.length x.length)
  else do
    let scores ← (← windows y.length (min folds y.length)).mapM (foldScore train x y)
    return ⟨scores, Scalar.mean scores⟩

end Infill.Folds
