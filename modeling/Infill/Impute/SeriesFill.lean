import Infill.Impute.Gap
import Infill.Score
import Infill.Search.Trial
import Infill.Series.Sarimax
import Infill.Series.Varmax
import Infill.Settings

/-!
Filling time series. The rows in which every series is observed are split by time; a search over
the orders keeps the one that forecasts the test window best. That order is fitted again to all
observed rows, and every gap is predicted from what lies before it.
-/

namespace Infill.SeriesFill

variable {α : Type} [Scalar α]

open Search (Config Grid)

/-- The lags that a search tries. -/
def orders : List Nat := [0, 1, 2, 4, 8, 24]

/-- A model that has been fitted to series and covariates. -/
structure FittedSeries (α : Type) where
  forecast : (horizon : Nat) → (covariates : List (List α)) → Except Error (Forecast α)
  forecaster : Forecaster α

/-- A family of models of time series. -/
structure Family (α : Type) where
  name : String
  grid : Grid
  fit : Config → (series covariates : List (List α)) → Except Error (FittedSeries α)

/-- What a family is given: the series, the rows in which one of them is missing, and covariates of
every row. -/
structure Sample (α : Type) where
  table : Table α
  targets : List String
  series : List (List (Option α))
  missing : List Bool
  covariates : List (List α)

namespace Sample

/-- The rows in which a value of some series is missing. -/
def missingIn (rows : Nat) (series : List (List (Option α))) : List Bool :=
  (List.range rows).map fun i =>
    series.any fun s => (Scalar.observed (s[i]?.join)).isNone

/-- The target columns of a table with the covariates beside them. -/
def ofTable (separator : Char) (t : Table α) (targets : List String) (measure : String) :
    Except Error (Sample α) := do
  let series ← targets.mapM t.numeric
  return {
    table := t
    targets
    series
    missing := missingIn t.rowCount series
    covariates := covariateColumns separator t measure }

def observedRows (s : Sample α) : List Nat :=
  (s.missing.zipIdx.filter fun (gone, _) => !gone).map (·.2)

/-- The values of every series in the observed rows. -/
def endog (s : Sample α) : List (List α) :=
  s.series.map fun values => s.observedRows.filterMap fun i => values[i]?.join

/-- The covariates of the observed rows. -/
def exog (s : Sample α) : List (List α) := rowsOf s.covariates s.observedRows

end Sample

/-- Fits one configuration to the training window and scores its forecast of the test window. -/
def trial (family : Family α) (endog exog : List (List α)) (split : Split) (config : Config) :
    Except Error (Score.Holdout α) := do
  let fitted ← family.fit config (endog.map split.train.inside) (split.train.inside exog)
  let forecast ← fitted.forecast split.testCount (split.test.inside exog)
  Score.holdout (endog.map split.test.inside) forecast.point split.accuracyCount

/-- Fits the chosen configuration to all observed rows and fills the gaps. -/
def finish (family : Family α) (s : Sample α) (split : Split) (successes : Nat)
    (best : Search.Best (Score.Holdout α)) : Except Error (Imputation α) := do
  let chosen : Imputation α :=
    { Imputation.unchanged s.table with
      split := some split
      best := some best.config
      score := some best.result.r2
      accuracy := some best.result.accuracy
      successes }
  match family.fit best.config s.endog s.exog with
  | .error e => return { chosen with failure := some e }
  | .ok fitted =>
    let covariates := rowsOf s.covariates (List.range s.table.rowCount)
    let gaps ← GapFill.fill fitted.forecaster s.table s.targets s.missing covariates
    return { chosen with
      table := gaps.table
      filled := some gaps.filled
      failure := gaps.unfilled }

/-- Fills the series of a sample. -/
def train (family : Family α) (s : Sample α) (testSize accuracySize : Nat)
    (settings : Settings α) : Except Error (Imputation α) :=
  if s.missing.contains true then
    let split := Split.ofSizes s.observedRows.length testSize accuracySize
    let plan : Search.Plan := ⟨settings.trials, settings.seed, .withReplacement⟩
    let trials := Search.run plan family.grid (trial family s.endog s.exog split)
    let successes := Search.successes trials
    match Search.requireBest family.name Score.Holdout.r2 trials with
    | .error e => .ok (Imputation.failed s.table split successes e)
    | .ok best => finish family s split successes best
  else .ok (Imputation.unchanged s.table)

namespace Single

def name : String := "univariateTS"

/-- The seasonal part is held at zero. -/
def grid : Grid :=
  [("p", orders), ("d", orders), ("q", orders), ("P", [0]), ("D", [0]), ("Q", [0]), ("s", [0])]

def orderOf (c : Config) : SarimaxOrder :=
  ⟨c.get "p", c.get "d", c.get "q", c.get "P", c.get "D", c.get "Q", c.get "s"⟩

def family : Family α where
  name := name
  grid := grid
  fit c series covariates :=
    match (Sarimax.new (orderOf c) : Sarimax α).fit series covariates with
    | (m, none) => .ok ⟨m.forecast, m.forecaster⟩
    | (_, some e) => .error e

/-- Fills one series of a frame; also gives the number of its covariates. -/
def train (frame : Table α) (target : String) (testSize accuracySize : Nat)
    (settings : Settings α) : Except Error (Imputation α × Nat) := do
  let measure := SeriesName.measure settings.separator target
  let s ← Sample.ofTable settings.separator frame [target] measure
  return (← SeriesFill.train family s testSize accuracySize settings, s.covariates.length)

end Single

namespace Joint

def name : String := "multivariateTS"

/-- The order without lags is tried as well, and fails. -/
def grid : Grid := [("p", orders), ("q", [0, 1, 2])]

def family : Family α where
  name := name
  grid := grid
  fit c series covariates :=
    match (Varmax.new (c.get "p") (c.get "q") : Varmax α).fit series covariates with
    | (m, none) => .ok ⟨m.forecast, m.forecaster⟩
    | (_, some e) => .error e

/-- The number of series and of covariates. -/
structure Dimensions where
  endog : Nat
  exog : Nat
  deriving DecidableEq, Repr

/-- Fills all series of a measure together. -/
def train (wide : Table α) (measure : String) (testSize accuracySize : Nat)
    (settings : Settings α) : Except Error (Imputation α × Dimensions) := do
  let targets := SeriesName.ofMeasure settings.separator wide measure
  if targets.isEmpty then throw (.columnNotFound measure)
  let s ← Sample.ofTable settings.separator wide targets measure
  let imputation ← SeriesFill.train family s testSize accuracySize settings
  return (imputation, ⟨targets.length, s.covariates.length⟩)

end Joint
end Infill.SeriesFill
