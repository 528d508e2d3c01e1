/-!
A series together with what lies behind each of its points. The past is read backwards: its first
entry is the point just before.
-/

namespace Infill.Past

variable {β : Type}

/-- Every point behind its past, when `past` lies behind the first. -/
def eachAfter (past : List β) : List β → List (List β × β)
  | [] => []
  | x :: rest => (past, x) :: eachAfter (x :: past) rest

def each (xs : List β) : List (List β × β) := eachAfter [] xs

/-- The point `lag` steps back. -/
def back? (past : List β) (lag : Nat) : Option β :=
  match lag with
  | 0 => none
  | k + 1 => past[k]?

end Infill.Past
