import Infill.Tree.Basic

/-!
The best cut of a node. The rows that have a feature are sorted by it; a cut between two different
values next to each other puts the rows up to it on the left, and all others, those without the
feature included, on the right. Its gain is the drop of the sum of squared errors around the means.
-/

namespace Infill.Tree

variable {α : Type} [Scalar α]

/-- A row of features with its target. -/
abbrev Example (α : Type) := List α × α

/-- A cut between two neighbouring values of a feature. -/
structure Cut (α : Type) where
  feature : Nat
  low : α
  high : α
  gain : α

/-- Half way between the two values, or the lower one if no number lies below the upper one. -/
def Cut.threshold (c : Cut α) : α :=
  let middle := c.low + (c.high - c.low) / ((2 : Nat) : α)
  if middle < c.high then middle else c.low

/-- What all cuts of one node share: its number of rows, the sum of its targets, and the least
number of rows of a side. -/
structure NodeTotals (α : Type) where
  count : Nat
  total : α
  minLeaf : Nat

/-- The drop of the squared error when `leftCount` rows with targets adding up to `leftSum` part from
the others; the sum of squares itself cancels. -/
def NodeTotals.gain (node : NodeTotals α) (leftCount : Nat) (leftSum : α) : α :=
  let rightSum := node.total - leftSum
  leftSum * leftSum / (leftCount : α) + rightSum * rightSum / ((node.count - leftCount : Nat) : α)
    - node.total * node.total / (node.count : α)

def NodeTotals.admits (node : NodeTotals α) (leftCount : Nat) : Bool :=
  node.minLeaf ≤ leftCount && node.minLeaf ≤ node.count - leftCount

/-- The admissible cuts of sorted values, `leftCount` rows with sum `leftSum` lying before them. -/
def cutsFrom (node : NodeTotals α) (feature : Nat) (leftCount : Nat) (leftSum : α) :
    List (α × α) → List (Cut α)
  | (low, y) :: (high, z) :: rest =>
    let count := leftCount + 1
    let sum := leftSum + y
    let later := cutsFrom node feature count sum ((high, z) :: rest)
    if !(low == high) && node.admits count then ⟨feature, low, high, node.gain count sum⟩ :: later
    else later
  | _ => []

/-- The values of a feature that are there, each with its target, in ascending order. -/
def sortedFeature (feature : Nat) (rows : List (Example α)) : List (α × α) :=
  let known := rows.filterMap fun (row, y) =>
    (Scalar.observed row[feature]?).map fun x => (x, y)
  known.mergeSort fun a b => Scalar.sortLe a.1 b.1

def nodeTotals (minLeaf : Nat) (rows : List (Example α)) : NodeTotals α :=
  ⟨rows.length, Scalar.sum (rows.map (·.2)), minLeaf⟩

/-- Every admissible cut, by feature and then by position. -/
def cuts (featureCount minLeaf : Nat) (rows : List (Example α)) : List (Cut α) :=
  (List.range featureCount).flatMap fun feature =>
    cutsFrom (nodeTotals minLeaf rows) feature 0 0 (sortedFeature feature rows)

/-- The gain that a cut has to exceed. -/
def leastGain : α := 1 / ((1000000000000 : Nat) : α)

def betterCut (best : Option (Cut α)) (c : Cut α) : Option (Cut α) :=
  if leastGain < c.gain && best.all (fun b => decide (b.gain < c.gain)) then some c else best

/-- The first cut of the greatest gain. -/
def bestCut (featureCount minLeaf : Nat) (rows : List (Example α)) : Option (Cut α) :=
  (cuts featureCount minLeaf rows).foldl betterCut none

end Infill.Tree
