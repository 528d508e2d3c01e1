/-!
The numbers that cells, scores and coefficients are made of. Every rule of the library is written
once over `Scalar`, in a fixed order of operations: it runs on doubles, and a statement about exact
arithmetic reads the same definition over an ordered field.
-/

namespace Infill

class Scalar (α : Type) extends Zero α, One α, Add α, Sub α, Mul α, Div α, Neg α, NatCast α,
    IntCast α, LT α, LE α, BEq α where
  decLt : DecidableLT α
  decLe : DecidableLE α
  sqrt : α → α
  /-- The nearest whole number, a half going away from zero. -/
  round : α → α
  /-- The whole part as an unsigned word: negative numbers and NaN give 0, large ones the maximum. -/
  toWord : α → Nat
  /-- The whole part as a signed word, clamped at both ends; NaN gives 0. -/
  toSignedWord : α → Int
  nan : α
  isNaN : α → Bool
  isFinite : α → Bool
  /-- A total order that extends `≤`. -/
  sortLe : α → α → Bool
  /-- The text under which a number serves as a label. -/
  text : α → String

attribute [reducible, instance] Scalar.decLt Scalar.decLe

namespace Scalar

variable {α : Type} [Scalar α]

/-- Sums run from left to right. -/
def sum (xs : List α) : α := xs.foldl (· + ·) 0

def mean (xs : List α) : α := sum xs / (xs.length : α)

def dot (xs ys : List α) : α := sum (List.zipWith (· * ·) xs ys)

def square (x : α) : α := x * x

/-- `x`, or `low` where `x` is smaller or not a number. -/
def atLeast (low x : α) : α := if low < x then x else low

/-- The value of a cell that holds one: an absent cell and a NaN are both missing. -/
def observed : Option α → Option α
  | some x => if isNaN x then none else some x
  | none => none

end Scalar
end Infill
