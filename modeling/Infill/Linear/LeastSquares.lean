import Infill.Error
import Infill.Linear.Cholesky

/-!
Least squares with an intercept. The normal equations are built row by row; every diagonal entry
grows by a small share of itself, so that collinear regressors stay solvable. One factor serves all
targets.
-/

namespace Infill.LeastSquares

variable {α : Type} [Scalar α]

structure Fit (α : Type) where
  intercept : α
  coefficients : List α

namespace Fit

/-- Surplus regressors, or surplus coefficients, do not count. -/
def predict (f : Fit α) (row : List α) : α := f.intercept + Scalar.dot f.coefficients row

end Fit

/-- The lower triangle of the products of the entries of one row. -/
def products : List α → List (List α)
  | [] => []
  | x :: xs => (x :: xs).map (x * ·) :: products xs

def addTriangles (a b : List (List α)) : List (List α) :=
  List.zipWith (List.zipWith (· + ·)) a b

/-- The triangle of zeros for `n` unknowns. -/
def zeroTriangle : Nat → List (List α)
  | 0 => []
  | n + 1 => List.replicate (n + 1) 0 :: zeroTriangle n

/-- The triangle of the normal equations of rows that carry a leading 1. -/
def gram (width : Nat) (rows : List (List α)) : List (List α) :=
  rows.foldl (fun acc row => addTriangles acc (products row)) (zeroTriangle width)

/-- The share of a diagonal entry that is added to it. -/
def ridge (d : α) : α := 1 / ((100000000 : Nat) : α) * Scalar.atLeast 1 d

def addRidge (triangle : List (List α)) : List (List α) :=
  triangle.map fun
    | [] => []
    | d :: below => (d + ridge d) :: below

/-- The right-hand side of the normal equations. -/
def moments (width : Nat) (rows : List (List α)) (y : List α) : List α :=
  (rows.zip y).foldl (fun acc (row, t) => List.zipWith (· + ·) acc (row.map (· * t)))
    (List.replicate width 0)

/-- The fit for one target, from the factor of the normal equations. -/
def solveTarget (factor : List (Cholesky.Pivot α)) (rows : List (List α)) (y : List α) :
    Except Error (Fit α) :=
  let solution := Cholesky.solve factor (moments factor.length rows y)
  if solution.all Scalar.isFinite then
    match solution with
    | intercept :: coefficients => .ok ⟨intercept, coefficients⟩
    | [] => .error (.singularMatrix "non-finite regression coefficients")
  else .error (.singularMatrix "non-finite regression coefficients")

/-- The shape that a regression needs: no fewer rows than parameters, rows of one width, and one
value per row in every target. -/
def checkShape (rows targets : List (List α)) : Except Error Unit :=
  let width := (rows.head?.getD []).length
  if rows.length < width + 1 then .error (.insufficientData (width + 1) rows.length)
  else match rows.find? (·.length ≠ width) with
    | some row => .error (.dimensionMismatch width row.length)
    | none => match targets.find? (·.length ≠ rows.length) with
      | some y => .error (.dimensionMismatch rows.length y.length)
      | none => .ok ()

/-- One fit per target. -/
def fitAll (rows targets : List (List α)) : Except Error (List (Fit α)) := do
  checkShape rows targets
  let design := rows.map (1 :: ·)
  let width := (rows.head?.getD []).length + 1
  match Cholesky.factor? (addRidge (gram width design)) with
  | none => .error (.singularMatrix "normal equations not positive definite")
  | some factor => targets.mapM (solveTarget factor design)

def fit (rows : List (List α)) (y : List α) : Except Error (Fit α) := do
  match ← fitAll rows [y] with
  | [f] => return f
  | _ => throw (.invalidParameter "no target supplied")

end Infill.LeastSquares
