import Infill.Score
import Infill.Search.Grid

/-!
Trials of a search. A trial that fails stays in the list with its reason; among the others the
highest score wins, and of equal scores the first.
-/

namespace Infill.Search

structure Trial (β : Type) where
  config : Config
  result : Except Error β

/-- The place of a successful trial, its configuration and its result. -/
structure Best (β : Type) where
  index : Nat
  config : Config
  result : β

variable {α β : Type} [Scalar α]

/-- The best of the trials up to this one. -/
def better (score : β → α) (best : Option (Best β)) (trial : Trial β × Nat) : Option (Best β) :=
  match trial.1.result with
  | .error _ => best
  | .ok result =>
    if Score.improves (score result) (best.map (score ·.result)) then
      some ⟨trial.2, trial.1.config, result⟩
    else best

def best? (score : β → α) (trials : List (Trial β)) : Option (Best β) :=
  trials.zipIdx.foldl (better score) none

/-- The best trial, or the failure of the search called `name`. -/
def requireBest (name : String) (score : β → α) (trials : List (Trial β)) :
    Except Error (Best β) :=
  match best? score trials with
  | some b => .ok b
  | none => .error (.noSuccessfulTrial name)

def successes (trials : List (Trial β)) : Nat := trials.countP (·.result.isOk)

/-- Tries every drawn configuration. -/
def run (plan : Plan) (grid : Grid) (evaluate : Config → Except Error β) : List (Trial β) :=
  (plan.draws grid).map fun config => ⟨config, evaluate config⟩

end Infill.Search
