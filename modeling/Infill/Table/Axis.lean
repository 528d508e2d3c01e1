/-!
The distinct values of a list in ascending order: the axis along which a table is spread.
-/

namespace Infill.Axis

variable {β : Type} [BEq β]

/-- Puts a value in its place among ascending values, once. -/
def insert (before : β → β → Bool) (x : β) : List β → List β
  | [] => [x]
  | y :: rest =>
    if x == y then y :: rest
    else if before x y then x :: y :: rest
    else y :: insert before x rest

def ascending (before : β → β → Bool) (xs : List β) : List β :=
  xs.foldl (fun axis x => insert before x axis) []

end Infill.Axis
