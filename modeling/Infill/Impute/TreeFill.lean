import Infill.Folds
import Infill.Impute.Outcome
import Infill.Search.Trial
import Infill.Settings
import Infill.Table.Features
import Infill.Tree.Forest

/-!
Filling a column by trees. Every other column is a feature. The observed rows are split by position;
a search over the limits of growth keeps the configuration with the best cross-validated score on the
training rows, and the model fitted to them predicts every missing cell.
-/

namespace Infill

variable {α : Type} [Scalar α]

open Search (Config Grid)

/-- A model over rows of features. -/
inductive RowModel (α : Type)
  | tree (model : DecisionTree α)
  | forest (model : Forest α)

namespace RowModel

def name : RowModel α → String
  | tree _ => "DecisionTree"
  | forest _ => "RandomForest"

def isFitted : RowModel α → Bool
  | tree m => m.isFitted
  | forest m => m.isFitted

def fit (m : RowModel α) (x : List (List α)) (y : List α) : RowModel α × Option Error :=
  match m with
  | tree m => let (m, e) := m.fit x y; (tree m, e)
  | forest m => let (m, e) := m.fit x y; (forest m, e)

def predict (m : RowModel α) (rows : List (List α)) : Except Error (List α) :=
  match m with
  | tree m => m.predict rows
  | forest m => m.predict rows

/-- Fits the model and hands out its predictions. -/
def trainer (m : RowModel α) : Folds.Trainer α := fun x y =>
  match m.fit x y with
  | (fitted, none) => .ok fitted.predict
  | (_, some e) => .error e

end RowModel

/-- A family of row models. -/
inductive TreeKind
  | decisionTree
  | randomForest
  deriving DecidableEq, Repr

namespace TreeKind

def name : TreeKind → String
  | decisionTree => "decisionTree"
  | randomForest => "randomForest"

def limitGrid : Grid :=
  [("max_depth", [2, 3, 4, 5]), ("min_samples_split", [2, 5, 10]), ("min_samples_leaf", [1, 2, 4])]

def grid : TreeKind → Grid
  | decisionTree => limitGrid
  | randomForest => limitGrid ++ [("n_estimators", [2, 3, 4, 5])]

def limitsOf (c : Config) : TreeLimits :=
  ⟨some (c.get "max_depth"), c.get "min_samples_split", c.get "min_samples_leaf"⟩

/-- The unfitted model of a configuration. -/
def build (kind : TreeKind) (c : Config) (seed : UInt64) : RowModel α :=
  match kind with
  | decisionTree => .tree (DecisionTree.new (limitsOf c))
  | randomForest => .forest (Forest.new ⟨c.get "n_estimators", limitsOf c, seed⟩)

end TreeKind

namespace TreeFill

/-- The observed rows with their targets, and the rows to predict. -/
structure Sample (α : Type) where
  x : List (List α)
  y : List α
  missing : List Nat
  xMissing : List (List α)

def Sample.ofTable (separator : Char) (t : Table α) (values : List (Option α))
    (missing : List Nat) (target : String) : Sample α :=
  let features := FeatureMatrix.encode separator t target
  let observed := (List.range t.rowCount).filter fun i => !missing.contains i
  { x := features.take observed
    y := observed.filterMap fun i => values[i]?.join
    missing
    xMissing := features.take missing }

/-- The mean score of a configuration over the folds of the training rows. -/
def trial (kind : TreeKind) (s : Sample α) (split : Split) (settings : Settings α)
    (config : Config) : Except Error α := do
  let model : RowModel α := kind.build config settings.seed
  let report ← Folds.crossValidate model.trainer (split.train.inside s.x) (split.train.inside s.y)
    settings.folds
  return report.mean

/-- Fits the training rows, scores the test rows and predicts the missing ones. -/
def predictions (model : RowModel α) (s : Sample α) (split : Split) :
    Except Error (Score.Holdout α × List α) := do
  if split.trainCount = 0 then throw (.insufficientData 1 0)
  let predict ← model.trainer (split.train.inside s.x) (split.train.inside s.y)
  let test ← predict (split.test.inside s.x)
  let score ← Score.holdout [split.test.inside s.y] [test] split.accuracyCount
  return (score, ← predict s.xMissing)

/-- The predictions as cells of the target. -/
def cellsOf (target : String) (missing : List Nat) (values : List α) : List (FilledCell α) :=
  List.zipWith (FilledCell.mk target) missing values

/-- Applies the chosen configuration. -/
def finish (kind : TreeKind) (t : Table α) (target : String) (s : Sample α) (split : Split)
    (successes : Nat) (best : Config) (settings : Settings α) : Except Error (Imputation α) :=
  let chosen := { Imputation.unchanged t with split := some split, best := some best, successes }
  match predictions (kind.build best settings.seed) s split with
  | .error e => .ok { chosen with failure := some e }
  | .ok (score, values) =>
    let filled := cellsOf target s.missing values
    match t.update target (FilledCell.write filled) with
    | .error e => .ok { chosen with failure := some e }
    | .ok table => .ok { chosen with
        table
        filled := some filled
        score := some score.r2
        accuracy := some score.accuracy }

/-- Fills the missing cells of a numeric column. -/
def train (t : Table α) (target : String) (kind : TreeKind) (testSize accuracySize : Nat)
    (settings : Settings α) : Except Error (Imputation α) := do
  let values ← t.numeric target
  let missing ← t.missingRows target
  if missing.isEmpty then return Imputation.unchanged t
  let s := Sample.ofTable settings.separator t values missing target
  let split := Split.ofSizes s.y.length testSize accuracySize
  let plan : Search.Plan := ⟨settings.trials, settings.seed, .withoutReplacement⟩
  let trials := Search.run plan kind.grid (trial kind s split settings)
  let successes := Search.successes trials
  match Search.requireBest kind.name id trials with
  | .error e => return Imputation.failed t split successes e
  | .ok best => finish kind t target s split successes best.config settings

end TreeFill
end Infill
