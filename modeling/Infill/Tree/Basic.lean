import Infill.Scalar

/-!
Regression trees. A row goes left where its feature is at most the threshold, and right otherwise,
so that a missing feature always goes right.
-/

namespace Infill

inductive Tree (α : Type)
  | leaf (value : α)
  | split (feature : Nat) (threshold : α) (left right : Tree α)

/-- The limits on the growth of a tree. -/
structure TreeLimits where
  /-- The depth of the deepest leaf, if it is limited. -/
  maxDepth : Option Nat
  /-- Fewer rows than this are not split. -/
  minSplit : Nat
  /-- No side of a split has fewer rows. -/
  minLeaf : Nat
  deriving DecidableEq, Repr

namespace Tree

variable {α : Type} [Scalar α]

/-- The side of a threshold on which a row lies. -/
def goesLeft (feature : Nat) (threshold : α) (row : List α) : Bool :=
  decide (row.getD feature Scalar.nan ≤ threshold)

def predict : Tree α → List α → α
  | leaf value, _ => value
  | split feature threshold left right, row =>
    if goesLeft feature threshold row then left.predict row else right.predict row

/-- A single leaf has depth 0. -/
def depth : Tree α → Nat
  | leaf _ => 0
  | split _ _ left right => 1 + max left.depth right.depth

def nodeCount : Tree α → Nat
  | leaf _ => 1
  | split _ _ left right => 1 + left.nodeCount + right.nodeCount

end Tree
end Infill
