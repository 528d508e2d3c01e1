import Infill.Error
import Infill.Scalar
import Infill.Series.Past

/-!
Differencing: a chain of differences at given lags, regular ones first and seasonal ones after them,
and its inverse, which continues a series from its continuation on the differenced scale.
-/

namespace Infill

variable {α : Type} [Scalar α]

/-- Every value less the one `lag` steps before it; the first `lag` values are lost. -/
def differenceAt (lag : Nat) (series : List α) : List α :=
  if lag = 0 then [] else List.zipWith (· - ·) (series.drop lag) series

/-- Adds to every value the one `lag` steps before it, `past` lying behind the first. -/
def restoreFrom (lag : Nat) (past : List α) : List α → List α
  | [] => []
  | w :: rest =>
    let x := w + (Past.back? past lag).getD 0
    x :: restoreFrom lag (x :: past) rest

structure Differencing where
  regular : Nat
  seasonal : Nat
  /-- The seasonal lag; without one there are no seasonal differences. -/
  period : Nat
  deriving DecidableEq, Repr

namespace Differencing

def lags (c : Differencing) : List Nat :=
  List.replicate c.regular 1 ++ if 0 < c.period then List.replicate c.seasonal c.period else []

/-- The number of values that the chain uses up. -/
def loss (c : Differencing) : Nat := c.lags.foldl (· + ·) 0

def apply (c : Differencing) (series : List α) : List α :=
  c.lags.foldl (fun xs lag => differenceAt lag xs) series

/-- Undoes the differences at the given lags, the last of them first. -/
def integrateLags : List Nat → List α → List α → List α
  | [], _, future => future
  | lag :: lags, history, future =>
    restoreFrom lag history.reverse (integrateLags lags (differenceAt lag history) future)

/-- The continuation of `history` whose differences are `future`. -/
def integrate (c : Differencing) (history future : List α) : Except Error (List α) :=
  if c.lags.isEmpty then .ok future
  else if history.length ≤ c.loss then
    .error (.insufficientData (c.loss + 1) history.length)
  else .ok (integrateLags c.lags history future)

end Differencing
end Infill
