import Infill.Linear.LeastSquares
import Infill.Series.Forecast
import Infill.Series.Past

/-!
The joint model of several series. At every time each series is regressed on the covariates, on the
last `p` values of all series and on their last `q` innovations. A first regression on a long past
stands in for the innovations. A fit writes into the model step by step, and stops where it fails;
without equations the model is not fitted.
-/

namespace Infill

variable {α : Type} [Scalar α]

/-- The values of all series at one time, with their innovations. -/
structure JointMoment (α : Type) where
  values : List α
  shocks : List α

namespace JointMoment

/-- Series of one length, read across: one list per time. -/
def across (series : List (List α)) : List (List α) :=
  (List.range (series.head?.getD []).length).map fun t => series.map (·.getD t 0)

/-- The values of each of `count` series, read along time. -/
def along (count : Nat) (rows : List (List α)) : List (List α) :=
  (List.range count).map fun j => rows.map (·.getD j 0)

end JointMoment

/-- The model: its order, and what a fit writes. -/
structure Varmax (α : Type) where
  p : Nat
  q : Nat
  means : List α
  /-- One for every series; none before a fit succeeds. -/
  equations : List (LeastSquares.Fit α)
  endog : List (List α)
  exog : List (List α)
  /-- The number of covariates in the first row. -/
  covariateCount : Nat

namespace Varmax

def new (p q : Nat) : Varmax α := ⟨p, q, [], [], [], [], 0⟩

/-- The regressors at one time: covariates, then the last `p` values and the last `q` innovations of
every series. In front of the sample a value reads as the mean of its series, an innovation as 0. -/
def regressors (means : List α) (p q : Nat) (covariates : List α)
    (past : List (JointMoment α)) : List α :=
  covariates
    ++ (List.range p).flatMap (fun i => ((past[i]?).map (·.values)).getD means)
    ++ (List.range q).flatMap (fun i => ((past[i]?).map (·.shocks)).getD (means.map fun _ => 0))

/-- The covariates at one time; none where there are no rows. -/
def covariatesAt (exog : List (List α)) (t : Nat) : List α := exog.getD t []

/-- What the equations leave unexplained. -/
def shocksOf (equations : List (LeastSquares.Fit α)) (row values : List α) : List α :=
  List.zipWith (fun x (eq : LeastSquares.Fit α) => x - eq.predict row) values equations

def predictNext (m : Varmax α) (covariates : List α) (past : List (JointMoment α)) : List α :=
  let row := regressors m.means m.p m.q covariates past
  m.equations.map (·.predict row)

/-- Takes in the values of one time; before the longest lag the innovations are 0. -/
def observe (m : Varmax α) (past : List (JointMoment α)) (now : List α × List α) :
    List (JointMoment α) :=
  let (values, covariates) := now
  let shocks :=
    if past.length < max m.p m.q then values.map fun _ => 0
    else shocksOf m.equations (regressors m.means m.p m.q covariates past) values
  ⟨values, shocks⟩ :: past

/-- The sample up to `length`, with its innovations. -/
def history (m : Varmax α) (length : Nat) : List (JointMoment α) :=
  let rows := (JointMoment.across m.endog).take length
  (rows.mapIdx fun t values => (values, covariatesAt m.exog t)).foldl m.observe []

/-- Steps ahead of a past, without further innovations, each with its covariates. -/
def ahead (m : Varmax α) (past : List (JointMoment α)) : List (List α) → List (List α)
  | [] => []
  | covariates :: rest =>
    let values := m.predictNext covariates past
    values :: m.ahead (⟨values, values.map fun _ => 0⟩ :: past) rest

/-- The innovations left by a regression on the last `long` values and the covariates; 0 where there
is no such past. -/
def longInnovations (means : List α) (series exog : List (List α)) (long : Nat) :
    Except Error (List (List α)) := do
  let moments := (JointMoment.across series).map fun values => JointMoment.mk values []
  let known := ((Past.each moments).mapIdx fun t (past, now) =>
    (regressors means long 0 (covariatesAt exog t) past, now.values)).drop long
  let equations ← LeastSquares.fitAll (known.map (·.1)) (series.map (·.drop long))
  return List.replicate long (means.map fun _ => 0)
    ++ known.map fun (row, values) => shocksOf equations row values

/-- The first stage, which is empty where no innovations are needed: the innovations, and the first
time of the second stage. -/
def firstStage (means : List α) (p q : Nat) (series exog : List (List α)) (count : Nat) :
    Except Error (List (List α) × Nat) :=
  if q = 0 then .ok (List.replicate count (means.map fun _ => 0), p)
  else
    let long := 2 * max p q
    if count ≤ long then .error (.insufficientData (long + 1) count)
    else do return (← longInnovations means series exog long, max p (long + q))

/-- A model without lags has nothing to fit, and all series and covariates must have one length. -/
def checkShape (p q : Nat) (series exog : List (List α)) : Except Error Unit :=
  let count := (series.head?.getD []).length
  if p = 0 && q = 0 then .error (.invalidParameter "VARMAX(0,0) has no dynamics")
  else if count = 0 then .error .emptyData
  else match series.find? (·.length ≠ count) with
    | some bad => .error (.dimensionMismatch count bad.length)
    | none =>
      if exog.isEmpty || exog.length = count then .ok ()
      else .error (.dimensionMismatch count exog.length)

/-- The equations that explain series and covariates of one length best. -/
def solve (m : Varmax α) (series exog : List (List α)) :
    Except Error (List (LeastSquares.Fit α)) := do
  let count := (series.head?.getD []).length
  let (innovations, start) ← firstStage m.means m.p m.q series exog count
  if count ≤ start then throw (.insufficientData (start + 1) count)
  let moments := List.zipWith JointMoment.mk (JointMoment.across series) innovations
  let rows := ((Past.each moments).mapIdx fun t (past, _) =>
    regressors m.means m.p m.q (covariatesAt exog t) past).drop start
  LeastSquares.fitAll rows (series.map (·.drop start))

/-- The new means replace the old ones, and the old equations go. -/
def prepare (m : Varmax α) (series : List (List α)) : Varmax α :=
  { m with means := series.map Scalar.mean, equations := [] }

/-- The new equations, with the sample that they are equations of. -/
def store (m : Varmax α) (equations : List (LeastSquares.Fit α)) (series exog : List (List α)) :
    Varmax α :=
  { m with equations, endog := series, exog, covariateCount := (exog.head?.getD []).length }

/-- Whether the model explains its sample up to finite innovations. -/
def isStable (m : Varmax α) : Bool :=
  (m.history (m.endog.head?.getD []).length).all (·.shocks.all Scalar.isFinite)

/-- A fit of the wrong shape leaves the model as it was; one that fails later leaves it without
equations, whatever else it has written by then. -/
def fit (m : Varmax α) (series exog : List (List α)) : Varmax α × Option Error :=
  match checkShape m.p m.q series exog with
  | .error e => (m, some e)
  | .ok () =>
    let m := m.prepare series
    match m.solve series exog with
    | .error e => (m, some e)
    | .ok equations =>
      let m := m.store equations series exog
      if m.isStable then (m, none)
      else
        ({ m with equations := [] },
          some (.nonConvergence s!"VARMAX({m.p},{m.q}) produced non-finite residuals"))

/-- The number of fitted observations. -/
def observations (m : Varmax α) : Option Nat :=
  if m.equations.isEmpty then none else m.endog.head?.map List.length

/-- The covariates of each step ahead; none where the model has none. -/
def futureRows (m : Varmax α) (horizon : Nat) (future : List (List α)) : List (List α) :=
  (List.range horizon).map fun i => if 0 < m.covariateCount then covariatesAt future i else []

def forecastFrom (m : Varmax α) (history horizon : Nat) (future : List (List α)) :
    Except Error (Forecast α) := do
  let some n := m.observations | throw .fitRequired
  if history = 0 || n < history then
    throw (.invalidParameter s!"history of {history} outside 1..={n} fitted observations")
  if 0 < m.covariateCount && future.length < horizon then
    throw (.dimensionMismatch horizon future.length)
  let steps := m.ahead (m.history history) (m.futureRows horizon future)
  let forecast : Forecast α := ⟨JointMoment.along m.endog.length steps⟩
  if forecast.isFinite then return forecast
  else throw (.nonConvergence s!"VARMAX({m.p},{m.q}) forecast diverged")

/-- The steps that follow the whole sample. -/
def forecast (m : Varmax α) (horizon : Nat) (future : List (List α)) :
    Except Error (Forecast α) :=
  match m.observations with
  | some n => m.forecastFrom n horizon future
  | none => .error .fitRequired

/-- The steps in front of the sample: the forecast of the same order fitted to the reversed one. -/
def backcast (m : Varmax α) (horizon : Nat) (before : List (List α)) :
    Except Error (Forecast α) := do
  if m.observations.isNone then throw .fitRequired
  if 0 < m.covariateCount && before.length < horizon then
    throw (.dimensionMismatch horizon before.length)
  let future := if 0 < m.covariateCount then
    (before.drop (before.length - horizon)).reverse else []
  match (new m.p m.q : Varmax α).fit (m.endog.map List.reverse) m.exog.reverse with
  | (_, some e) => throw e
  | (reversed, none) =>
    return ⟨(← reversed.forecast horizon future).point.map List.reverse⟩

def forecaster (m : Varmax α) : Forecaster α := ⟨m.forecastFrom, m.backcast⟩

end Varmax
end Infill
