import Infill.Chance.Draw
import Infill.Tree.Grow

/-!
Forests: every tree is grown on as many rows as there are, drawn with repetition from one stream, and
the predictions of the trees are averaged.
-/

namespace Infill

structure ForestLimits where
  treeCount : Nat
  limits : TreeLimits
  seed : UInt64

structure Forest (α : Type) where
  limits : ForestLimits
  trees : List (GrownTree α)

namespace Forest

variable {α : Type} [Scalar α]

def new (limits : ForestLimits) : Forest α := ⟨limits, []⟩

def isFitted (m : Forest α) : Bool := !m.trees.isEmpty

/-- The rows on which each of `count` trees is grown. -/
def samples (rows : Nat) : Nat → Chance.Generator → List (List Nat)
  | 0, _ => []
  | count + 1, g =>
    let (sample, g) := Chance.positions rows rows g
    sample :: samples rows count g

def grow (limits : ForestLimits) (x : List (List α)) (y : List α) :
    Except Error (List (GrownTree α)) :=
  if limits.treeCount = 0 then .error (.invalidParameter "n_estimators must be positive")
  else if y.isEmpty then .error (.insufficientData 1 0)
  else
    (samples y.length limits.treeCount (Chance.Generator.ofSeed limits.seed)).mapM
      (GrownTree.ofSample limits.limits x y)

/-- A fit that fails leaves the trees of the last one. -/
def fit (m : Forest α) (x : List (List α)) (y : List α) : Forest α × Option Error :=
  match grow m.limits x y with
  | .ok trees => ({ m with trees }, none)
  | .error e => (m, some e)

/-- Adds the predictions of every tree to `sums`, tree after tree. -/
def addPredictions (rows : List (List α)) (sums : List α) (t : GrownTree α) :
    Except Error (List α) := do
  return List.zipWith (· + ·) sums (← t.predict rows)

def predict (m : Forest α) (rows : List (List α)) : Except Error (List α) :=
  if m.trees.isEmpty then .error .fitRequired
  else do
    let sums ← m.trees.foldlM (addPredictions rows) (List.replicate rows.length 0)
    return sums.map (· / (m.trees.length : α))

end Forest
end Infill
