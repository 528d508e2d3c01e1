import Infill.Impute.Family
import Infill.Impute.SeriesFill
import Infill.Impute.TreeFill
import Infill.Table.Dates
import Infill.Table.Pivot
import Infill.Text.Case

/-!
A run: the date and the slice column are picked from the grouping keys, the table is spread into wide
series if it has dates, and every family of the roster fills its own copy. Time-aware families fill
the wide table and hand back its long form; the others fill the long table. No family sees what
another has filled.
-/

namespace Infill

variable {α : Type} [Scalar α]

open Calendar (Granularity)

/-- The columns that give the rows a time and tell the series apart. -/
structure KeyRoles where
  date : Option (String × Granularity)
  slice : Option String
  deriving DecidableEq, Repr

namespace KeyRoles

/-- The first key that holds the word. -/
def keyHolding (keys : List String) (k : DateKeyword) : Option (String × Granularity) :=
  (keys.find? fun key => Text.occursIn k.word.toList key.toList).map (·, k.granularity)

/-- The first keyword found in any key picks the date column; the first other key is the slice. -/
def pick (keywords : List DateKeyword) (keys : List String) : KeyRoles :=
  let date := keywords.findSome? (keyHolding keys)
  { date
    slice := keys.find? fun key => some key ≠ date.map (·.1) }

end KeyRoles

/-- One line of statistics: a family on one series, or on everything. -/
structure MetricsRecord (α : Type) where
  model : Family
  component : String
  interest : Option α
  /-- The share of rows with a missing target. -/
  sparsity : Option α
  endog : Option Nat
  exog : Option Nat
  successes : Nat
  timed : Bool
  accuracy : Option α
  failure : Option Error
  executionId : String

structure ImputedTable (α : Type) where
  model : Family
  table : Table α

/-- A step of a run that takes time. -/
inductive Step
  | pivot
  | family (f : Family)
  deriving DecidableEq, Repr

def Step.name : Step → String
  | pivot => "pivot"
  | family f => f.name

structure Report (α : Type) where
  metrics : List (MetricsRecord α)
  timings : List Step
  wide : Option (Table α)
  imputed : List (ImputedTable α)

/-- What a run was asked for, apart from the table and the roster. -/
structure Request (α : Type) where
  keys : List String
  target : String
  nullifyLast : Option Nat
  executionId : String
  settings : Settings α

/-- The contribution of one family to a report. -/
structure Contribution (α : Type) where
  metrics : List (MetricsRecord α)
  imputed : ImputedTable α

namespace Run

/-- Blanks the last `n` of the values of a series. -/
def blankLast (n : Nat) (values : List (Option α)) : List (Option α) :=
  let kept := values.length - n
  values.take kept ++ List.replicate (values.length - kept) none

/-- Blanks the last `n` rows of the named series, one after the other. A column that is not numeric
stops it: the series before it stay blanked. -/
def blankSeries (n : Nat) : List String → Table α → Table α × Option Error
  | [], t => (t, none)
  | name :: rest, t =>
    match t.update name (blankLast n) with
    | .ok t => blankSeries n rest t
    | .error e => (t, some e)

/-- Blanks the last `n` rows of every series of the target. -/
def nullifyLastRows (separator : Char) (target : String) (n : Nat) (wide : Table α) :
    Table α × Option Error :=
  blankSeries n (SeriesName.ofMeasure separator wide target) wide

/-- The sizes of the test and of the accuracy window. -/
structure Windows where
  test : Nat
  accuracy : Nat

def windowsOf (settings : Settings α) (rows : Nat) : Windows :=
  let test := settings.testRows rows
  ⟨test, settings.accuracyRows test⟩

def record (r : Request α) (model : Family) (component : String) (i : Imputation α)
    (missing rows : Nat) (endog exog : Option Nat) : MetricsRecord α where
  model := model
  component := component
  interest := i.score
  sparsity := if 0 < missing && 0 < rows then some ((missing : α) / (rows : α)) else none
  endog := endog
  exog := exog
  successes := i.successes
  timed := i.wasSearched
  accuracy := i.accuracy
  failure := i.failure
  executionId := r.executionId

/-- Fills the target of one frame by a family that works series by series; also gives the number of
covariates. -/
def fillFrame (r : Request α) (model : Family) (frame : Table α) (series : String) (w : Windows) :
    Except Error (Imputation α × Nat) :=
  let byTree (kind : TreeKind) := do
    return (← TreeFill.train frame series kind w.test w.accuracy r.settings,
      frame.columns.length - 2)
  match model with
  | .univariate => SeriesFill.Single.train frame series w.test w.accuracy r.settings
  | .timeDecisionTree => byTree .decisionTree
  | _ => byTree .randomForest

def writeCell (t : Table α) (c : FilledCell α) : Except Error (Table α) :=
  t.setCell c.column c.row (some c.value)

/-- The records so far and the table so far of a family that works series by series. -/
abbrev Progress (α : Type) := List (MetricsRecord α) × Table α

def fillSeries (r : Request α) (model : Family) (wide : Table α) (date : String) (w : Windows)
    (progress : Progress α) (series : String) : Except Error (Progress α) := do
  let separator := r.settings.separator
  let missing ← wide.missingCount series
  if missing = 0 then return progress
  let frame ← SeriesName.sliceFrame separator wide date series
  let (imputation, exog) ← fillFrame r model frame series w
  let table ← (imputation.filled.getD []).foldlM writeCell progress.2
  let component := (SeriesName.slice? separator series).getD SeriesName.whole
  let line := record r model component imputation missing frame.rowCount (some 1) (some exog)
  return (progress.1 ++ [line], table)

/-- Every series of the target with missing cells, one after the other. -/
def perSeries (r : Request α) (model : Family) (wide : Table α) (date : String) (w : Windows) :
    Except Error (Progress α) :=
  (SeriesName.ofMeasure r.settings.separator wide r.target).foldlM
    (fillSeries r model wide date w) ([], wide)

/-- The rows in which some series of the target is missing. -/
def rowsMissing (separator : Char) (wide : Table α) (target : String) :
    Except Error (List Nat) := do
  let rows ← (SeriesName.ofMeasure separator wide target).mapM wide.missingRows
  return rows.flatten.eraseDups

/-- All series of the target together. -/
def jointly (r : Request α) (wide : Table α) (w : Windows) : Except Error (Progress α) := do
  let (imputation, dims) ← SeriesFill.Joint.train wide r.target w.test w.accuracy r.settings
  let missing ← rowsMissing r.settings.separator wide r.target
  let line := record r .multivariate SeriesName.whole imputation missing.length wide.rowCount
    (some dims.endog) (some dims.exog)
  return ([line], imputation.table)

/-- A time-aware family on the wide table. The joint family needs two slices, and contributes nothing
without them. -/
def timeAware (r : Request α) (wide : Table α) (date : String) (slice : Option String)
    (distinctSlices : Nat) (model : Family) : Except Error (Option (Contribution α)) := do
  let w := windowsOf r.settings wide.rowCount
  if model = .multivariate && distinctSlices ≤ 1 then return none
  let (metrics, table) ← if model = .multivariate then jointly r wide w
    else perSeries r model wide date w
  let long ← Pivot.gather r.settings.separator table date slice r.target
  return some ⟨metrics, ⟨model, long⟩⟩

/-- A family on the long table. -/
def timeAgnostic (r : Request α) (table : Table α) (missing : Nat) (model : Family) :
    Except Error (Contribution α) := do
  let w := windowsOf r.settings table.rowCount
  let kind := if model = .decisionTree then TreeKind.decisionTree else TreeKind.randomForest
  let imputation ← TreeFill.train table r.target kind w.test w.accuracy r.settings
  let line := record r model SeriesName.whole imputation missing table.rowCount none none
  return ⟨[line], ⟨model, imputation.table⟩⟩

def distinctSlices (table : Table α) (slice : Option String) : Nat :=
  match slice.bind table.column? with
  | some c => (c.cells.labels.filterMap id).eraseDups.length
  | none => 0

/-- The table with its date column read. -/
def withDates (table : Table α) (date : Option (String × Granularity)) :
    Except Error (Table α) := do
  match date with
  | none => return table
  | some (name, granularity) =>
    table.setColumn (← (← table.column name).parseDates granularity)

/-- The wide table of a run, its last rows blanked if asked for. -/
def wideTable (r : Request α) (table : Table α) (roles : KeyRoles) (date : String) :
    Except Error (Table α) := do
  let pivot : Pivot := {
    date
    slice := roles.slice
    measures := some (table.names.filter fun name => !r.keys.contains name)
    target := r.target
    fillCovariates := r.settings.fillCovariates
    separator := r.settings.separator }
  let wide ← pivot.spread table
  match r.nullifyLast with
  | none => return wide
  | some n =>
    match nullifyLastRows r.settings.separator r.target n wide with
    | (blanked, none) => return blanked
    | (_, some e) => throw e

/-- The report that consists of contributions alone. -/
def assemble (contributions : List (Contribution α)) : Report α where
  metrics := contributions.flatMap (·.metrics)
  timings := contributions.map (.family ·.imputed.model)
  wide := none
  imputed := contributions.map (·.imputed)

/-- The part of a run that needs dates. -/
def timePart (r : Request α) (table : Table α) (roles : KeyRoles) (families : List Family) :
    Except Error (Report α) := do
  match roles.date with
  | none => return assemble []
  | some (date, _) =>
    let wide ← wideTable r table roles date
    let slices := distinctSlices table roles.slice
    let contributions ← (families.filter (·.isTimeAware)).mapM
      (timeAware r wide date roles.slice slices)
    let report := assemble (contributions.filterMap id)
    return { report with timings := .pivot :: report.timings, wide := some wide }

/-- The part of a run on the long table. -/
def rowPart (r : Request α) (table : Table α) (families : List Family) :
    Except Error (Report α) := do
  let missing ← table.missingCount r.target
  let contributions ← (families.filter (!·.isTimeAware)).mapM (timeAgnostic r table missing)
  return assemble contributions

/-- Runs the families of a roster; names that are not known are passed over. -/
def predict (table : Table α) (roster : List String) (r : Request α) :
    Except Error (Report α) := do
  if table.rowCount = 0 then throw .emptyData
  let families := roster.filterMap Family.ofName?
  let roles := KeyRoles.pick r.settings.dateKeywords r.keys
  let table ← withDates table roles.date
  let time ← timePart r table roles families
  let rows ← rowPart r table families
  return {
    metrics := time.metrics ++ rows.metrics
    timings := time.timings ++ rows.timings
    wide := time.wide
    imputed := time.imputed ++ rows.imputed }

end Run
end Infill
