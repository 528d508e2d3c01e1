import Infill.Scalar

/-!
Closing the gaps of a covariate: the last observed value is carried forward, and the first observed
value back over the gap before it. A NaN is a gap, so none remains.
-/

namespace Infill.Carry

variable {α : Type} [Scalar α]

/-- Every gap takes the observation before it, or `last` at the start. -/
def forward (last : Option α) : List (Option α) → List (Option α)
  | [] => []
  | cell :: rest =>
    let seen := (Scalar.observed cell).or last
    seen :: forward seen rest

/-- Every gap takes the value behind it. -/
def backward : List (Option α) → List (Option α)
  | [] => []
  | cell :: rest =>
    let filled := backward rest
    cell.or filled.head?.join :: filled

def fill (cells : List (Option α)) : List (Option α) := backward (forward none cells)

/-- The values of a column without gaps, if it has none left once filled. -/
def dense? (cells : List (Option α)) : Option (List α) := (fill cells).mapM id

end Infill.Carry
