import Infill.Error
import Infill.Tree.Cut

/-!
Growing a tree from examples. A node is a leaf when the depth is used up, when it has too few rows,
when all its targets agree, or when no cut gains anything. Otherwise its best cut parts the rows and
both sides are grown. A cut that leaves all rows on one side parts nothing and is not made.
-/

namespace Infill

variable {α : Type} [Scalar α]

namespace Tree

def leafOf (rows : List (Example α)) : Tree α := leaf (Scalar.mean (rows.map (·.2)))

/-- All targets equal the first. -/
def isPure (rows : List (Example α)) : Bool :=
  match rows with
  | [] => true
  | (_, first) :: _ => rows.all fun (_, y) => y == first

def isSettled (limits : TreeLimits) (depthLeft : Option Nat) (rows : List (Example α)) : Bool :=
  depthLeft == some 0 || rows.length < max limits.minSplit 2
    || rows.length < 2 * max limits.minLeaf 1 || isPure rows

/-- The cut that a node makes, if it is not a leaf. -/
def nextCut (limits : TreeLimits) (featureCount : Nat) (depthLeft : Option Nat)
    (rows : List (Example α)) : Option (Cut α) :=
  if isSettled limits depthLeft rows then none
  else bestCut featureCount (max limits.minLeaf 1) rows

/-- The rows on the left and on the right of a cut, each side in order. -/
def Cut.part (cut : Cut α) (rows : List (Example α)) : List (Example α) × List (Example α) :=
  rows.partition fun row => goesLeft cut.feature cut.threshold row.1

def grow (limits : TreeLimits) (featureCount : Nat) (depthLeft : Option Nat)
    (rows : List (Example α)) : Tree α :=
  match nextCut limits featureCount depthLeft rows with
  | none => leafOf rows
  | some cut =>
    let (left, right) := cut.part rows
    if left.length < rows.length ∧ right.length < rows.length then
      let depthLeft := depthLeft.map (· - 1)
      split cut.feature cut.threshold (grow limits featureCount depthLeft left)
        (grow limits featureCount depthLeft right)
    else leafOf rows
termination_by rows.length
decreasing_by all_goals omega

end Tree

/-- A grown tree and the number of features it was grown on. -/
structure GrownTree (α : Type) where
  root : Tree α
  featureCount : Nat

namespace GrownTree

/-- Grows a tree on the listed rows; a row may be listed more than once. -/
def ofSample (limits : TreeLimits) (x : List (List α)) (y : List α) (sample : List Nat) :
    Except Error (GrownTree α) :=
  if x.length ≠ y.length then .error (.dimensionMismatch y.length x.length)
  else
    let table := (x.zip y).toArray
    match sample.filterMap (table[·]?) with
    | [] => .error (.insufficientData 1 0)
    | (row, target) :: rest =>
      let featureCount := row.length
      .ok ⟨Tree.grow limits featureCount limits.maxDepth ((row, target) :: rest), featureCount⟩

def predictRow (t : GrownTree α) (row : List α) : Except Error α :=
  if row.length = t.featureCount then .ok (t.root.predict row)
  else .error (.dimensionMismatch t.featureCount row.length)

def predict (t : GrownTree α) (rows : List (List α)) : Except Error (List α) :=
  rows.mapM t.predictRow

end GrownTree

/-- A tree model: its limits and, once fitted, the tree. -/
structure DecisionTree (α : Type) where
  limits : TreeLimits
  grown : Option (GrownTree α)

namespace DecisionTree

def new (limits : TreeLimits) : DecisionTree α := ⟨limits, none⟩

def isFitted (m : DecisionTree α) : Bool := m.grown.isSome

/-- A fit that fails leaves the model as it was, and says why. -/
def fitSample (m : DecisionTree α) (x : List (List α)) (y : List α) (sample : List Nat) :
    DecisionTree α × Option Error :=
  match GrownTree.ofSample m.limits x y sample with
  | .ok grown => ({ m with grown := some grown }, none)
  | .error e => (m, some e)

def fit (m : DecisionTree α) (x : List (List α)) (y : List α) : DecisionTree α × Option Error :=
  m.fitSample x y (List.range y.length)

def predict (m : DecisionTree α) (rows : List (List α)) : Except Error (List α) :=
  match m.grown with
  | some grown => grown.predict rows
  | none => .error .fitRequired

def depth (m : DecisionTree α) : Nat := (m.grown.map (·.root.depth)).getD 0

def nodeCount (m : DecisionTree α) : Nat := (m.grown.map (·.root.nodeCount)).getD 0

end DecisionTree
end Infill
