import Infill.Proofs.Impute.Runs
import Infill.Proofs.Success

/-! What a model is asked while gaps are filled. A block of missing rows makes one question, and a run
asks the question of its block. A filling that keeps what it asks fills as the other one does, and asks
once for every run, in their order. -/

namespace Infill

variable {α : Type}

inductive Question (α : Type)
  | forecastFrom (history horizon : Nat) (covariates : List (List α))
  | backcast (horizon : Nat) (covariates : List (List α))

/-- The question about a block of missing rows: as many steps as it has rows, with their covariates,
from the rows in front of it that are there, or backwards if there are none. -/
def Question.ofBlock (missing : List Bool) (covariates : List (List α)) (first next : Nat) :
    Question α :=
  let history := (missing.take first).count false
  let here := (covariates.drop first).take (next - first)
  if history = 0 then .backcast (next - first) here
  else .forecastFrom history (next - first) here

def Question.horizon : Question α → Nat
  | .forecastFrom _ horizon _ => horizon
  | .backcast horizon _ => horizon

namespace Forecaster

def answer (model : Forecaster α) : Question α → Except Error (Forecast α)
  | .forecastFrom history horizon covariates => model.forecastFrom history horizon covariates
  | .backcast horizon covariates => model.backcast horizon covariates

/-- Every answer has `count` series of the steps that are asked for. -/
def Shaped (model : Forecaster α) (count : Nat) : Prop :=
  ∀ q forecast, model.answer q = .ok forecast →
    forecast.dimensions = count ∧ ∀ values ∈ forecast.point, values.length = q.horizon

def ask (model : Forecaster α) (q : Question α) :
    StateM (List (Question α)) (Except Error (Forecast α)) := do
  modify (· ++ [q])
  return model.answer q

end Forecaster

namespace Gap

def question (covariates : List (List α)) (g : Gap) : Question α :=
  let here := g.rows.map (covariates.getD · [])
  if g.history = 0 then .backcast g.length here else .forecastFrom g.history g.length here

theorem predict_eq_answer (model : Forecaster α) (covariates : List (List α)) (g : Gap) :
    g.predict model covariates = model.answer (g.question covariates) := by
  rw [predict, question]
  split <;> rfl

theorem horizon_question (covariates : List (List α)) (g : Gap) :
    (g.question covariates).horizon = g.length := by
  rw [question]
  split <;> rfl

/-- Of a run the same is asked as of its block. -/
theorem question_eq {missing : List Bool} {covariates : List (List α)}
    (hcovariates : missing.length = covariates.length) {g : Gap} (h : g ∈ runs missing) :
    g.question covariates = .ofBlock missing covariates g.first (g.first + g.length) := by
  have hhistory := history_of_mem_runsFrom h
  have hlast := last_le_of_mem_runs h
  have hhere : g.rows.map (covariates.getD · []) = (covariates.drop g.first).take g.length := by
    refine List.ext_getElem (by simp [rows]; omega) fun i hi hi' => ?_
    have hlt : i < g.length := by simpa [rows] using hi
    have hget : g.first + i < covariates.length := by omega
    simp [rows, hget]
  rw [Nat.zero_add, Nat.sub_zero] at hhistory
  rw [question, Question.ofBlock, Nat.add_sub_cancel_left, hhere, hhistory]

end Gap

namespace GapFill

variable [Scalar α]

def fillRunAsking (model : Forecaster α) (columns : List String) (covariates : List (List α))
    (state : GapFill α) (g : Gap) : ExceptT Error (StateM (List (Question α))) (GapFill α) := do
  match ← liftM (model.ask (g.question covariates)) with
  | .ok forecast => ExceptT.mk (pure (columns.zipIdx.foldlM (fillColumn g forecast) state))
  | .error e =>
    return { state with unfilled := state.unfilled.or (some (.gapNotFilled g.first e.message)) }

def fillAsking (model : Forecaster α) (table : Table α) (columns : List String)
    (missing : List Bool) (covariates : List (List α)) :
    ExceptT Error (StateM (List (Question α))) (GapFill α) :=
  (Gap.runs missing).foldlM (fillRunAsking model columns covariates) ⟨table, [], none⟩

section Asking

variable {model : Forecaster α} {columns : List String} {covariates : List (List α)}

variable (model columns covariates) in
theorem fillRunAsking_run (s : GapFill α) (g : Gap) (asked : List (Question α)) :
    (fillRunAsking model columns covariates s g).run asked =
      (fillRun model columns covariates s g, asked ++ [g.question covariates]) := by
  rw [fillRun, Gap.predict_eq_answer, fillRunAsking]
  simp only [Forecaster.ask, ExceptT.run_bind]
  cases model.answer (g.question covariates) <;> rfl

/-- Asking or not, the runs are filled alike, and each of them asks once. -/
theorem foldlM_fillRunAsking {gaps : List Gap} {s s' : GapFill α}
    (h : gaps.foldlM (fillRun model columns covariates) s = .ok s') (asked : List (Question α)) :
    (gaps.foldlM (fillRunAsking model columns covariates) s).run asked =
      (.ok s', asked ++ gaps.map (·.question covariates)) := by
  induction gaps generalizing s asked with
  | nil =>
    obtain rfl := pure_ok_iff.1 h
    rw [List.map_nil, List.append_nil]
    rfl
  | cons g gaps ih =>
    obtain ⟨m, hm, h⟩ := foldlM_cons_ok_iff.1 h
    have hstep := fillRunAsking_run model columns covariates s g asked
    rw [hm] at hstep
    rw [List.foldlM_cons, ExceptT.run_bind]
    simp only [bind, StateT.bind, hstep]
    rw [ih h, List.map_cons, List.append_assoc, List.singleton_append]

end Asking

end GapFill

end Infill
