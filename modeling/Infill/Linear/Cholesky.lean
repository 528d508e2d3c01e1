import Infill.Scalar

/-!
Symmetric positive definite systems. A symmetric matrix is given by the columns of its lower
triangle, each from the diagonal down. The first column of the factor is the first column of the
matrix divided by the root of its head; subtracting the products of its entries from what remains
gives the matrix whose factor is the rest.
-/

namespace Infill.Cholesky

variable {α : Type} [Scalar α]

/-- A column of the factor: the entry on the diagonal and those below it. -/
structure Pivot (α : Type) where
  head : α
  below : List α

/-- The lower triangle of the remaining columns without the part that `v` accounts for. -/
def reduce : List α → List (List α) → List (List α)
  | v :: vs, column :: columns =>
    List.zipWith (fun a w => a - w * v) column (v :: vs) :: reduce vs columns
  | _, _ => []

theorem length_reduce_le (vs : List α) (columns : List (List α)) :
    (reduce vs columns).length ≤ columns.length := by
  induction vs generalizing columns with
  | nil => simp [reduce]
  | cons v vs ih =>
    cases columns with
    | nil => simp [reduce]
    | cons c cs => simpa [reduce] using ih cs

/-- The factor, unless a pivot is not positive and finite. -/
def factor? : List (List α) → Option (List (Pivot α))
  | [] => some []
  | [] :: _ => none
  | (a :: as) :: columns =>
    if a ≤ 0 || !Scalar.isFinite a then none
    else
      let head := Scalar.sqrt a
      let below := as.map (· / head)
      (factor? (reduce below columns)).map (⟨head, below⟩ :: ·)
termination_by columns => columns.length
decreasing_by
  simpa using Nat.lt_succ_of_le (length_reduce_le _ columns)

/-- The right-hand side without the multiple `y` of the column `below`. -/
def eliminate (y : α) (below rest : List α) : List α :=
  List.zipWith (fun b v => b - v * y) rest below

/-- The value left of `y` once the unknowns that follow are known. -/
def backSubstitute (y : α) (below solved : List α) : α :=
  (below.zip solved).foldl (fun acc (v, x) => acc - v * x) y

/-- Solves for the right-hand side by elimination on the way down and substitution on the way up. -/
def solve : List (Pivot α) → List α → List α
  | p :: ps, b :: bs =>
    let y := b / p.head
    let solved := solve ps (eliminate y p.below bs)
    backSubstitute y p.below solved / p.head :: solved
  | _, _ => []

end Infill.Cholesky
