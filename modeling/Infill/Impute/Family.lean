import Infill.Error

/-!
The families of models that a run may be asked for, by name. Time-aware families work on the series
of the wide table, the others on the rows of the long one.
-/

namespace Infill

inductive Family
  | univariate
  | multivariate
  | timeDecisionTree
  | timeRandomForest
  | decisionTree
  | randomForest
  deriving DecidableEq, Repr

namespace Family

def all : List Family :=
  [univariate, multivariate, timeDecisionTree, timeRandomForest, decisionTree, randomForest]

def name : Family → String
  | univariate => "univariateTS"
  | multivariate => "multivariateTS"
  | timeDecisionTree => "timeDecisionTree"
  | timeRandomForest => "timeRandomForest"
  | decisionTree => "decisionTree"
  | randomForest => "randomForest"

def ofName? (name : String) : Option Family := all.find? (·.name = name)

def ofName (name : String) : Except Error Family :=
  match ofName? name with
  | some f => .ok f
  | none => .error (.invalidParameter ("unknown model " ++ name))

def isTimeAware : Family → Bool
  | decisionTree | randomForest => false
  | _ => true

end Family
end Infill
