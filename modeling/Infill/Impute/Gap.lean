import Infill.Impute.Outcome
import Infill.Series.Forecast
import Infill.Table.Carry
import Infill.Table.SeriesName

/-!
Gaps of time series. The missing rows of a table fall into runs of consecutive rows. A run with
observed rows before it is forecast from them; a run at the start is backcast from the whole sample.
Only missing cells are written, and a run that cannot be predicted stays open.
-/

namespace Infill

variable {α : Type} [Scalar α]

/-- A run of missing rows. -/
structure Gap where
  /-- The number of observed rows before the run. -/
  history : Nat
  first : Nat
  length : Nat
  deriving DecidableEq, Repr

namespace Gap

def rows (g : Gap) : List Nat := List.range' g.first g.length

/-- A missing row joins the run that starts right after it, or is a run of its own. -/
def prepend (history row : Nat) : List Gap → List Gap
  | g :: rest =>
    if g.first = row + 1 then ⟨history, row, g.length + 1⟩ :: rest
    else ⟨history, row, 1⟩ :: g :: rest
  | [] => [⟨history, row, 1⟩]

/-- The runs of a list that starts at `row` behind `history` observed rows. -/
def runsFrom (history row : Nat) : List Bool → List Gap
  | [] => []
  | false :: rest => runsFrom (history + 1) (row + 1) rest
  | true :: rest => prepend history row (runsFrom history (row + 1) rest)

def runs (missing : List Bool) : List Gap := runsFrom 0 0 missing

/-- What the model says about a run, given the covariates of all rows. -/
def predict (model : Forecaster α) (covariates : List (List α)) (g : Gap) :
    Except Error (Forecast α) :=
  let here := g.rows.map (covariates.getD · [])
  if g.history = 0 then model.backcast g.length here
  else model.forecastFrom g.history g.length here

end Gap

/-- A table in the course of being filled. -/
structure GapFill (α : Type) where
  table : Table α
  filled : List (FilledCell α)
  /-- The first run that could not be predicted. -/
  unfilled : Option Error

namespace GapFill

/-- Which of the predictions for consecutive rows from `first` fall on missing cells. -/
def openCells (column : String) (first : Nat) (cells : List (Option α)) (predictions : List α) :
    List (FilledCell α) :=
  predictions.zipIdx.filterMap fun (value, i) =>
    match Scalar.observed (cells[first + i]?.join) with
    | none => some ⟨column, first + i, value⟩
    | some _ => none

/-- Writes the predictions for one column of a run. -/
def fillColumn (g : Gap) (forecast : Forecast α) (state : GapFill α) (column : String × Nat) :
    Except Error (GapFill α) := do
  let predictions ← forecast.series column.2
  let cells ← state.table.numeric column.1
  let filled := openCells column.1 g.first cells (predictions.take g.length)
  let table ← state.table.update column.1 (FilledCell.write filled)
  return { state with table, filled := state.filled ++ filled }

def fillRun (model : Forecaster α) (columns : List String) (covariates : List (List α))
    (state : GapFill α) (g : Gap) : Except Error (GapFill α) :=
  match g.predict model covariates with
  | .ok forecast => columns.zipIdx.foldlM (fillColumn g forecast) state
  | .error e =>
    .ok { state with unfilled := state.unfilled.or (some (.gapNotFilled g.first e.message)) }

/-- Fills every run of missing rows in the given columns, which are the series of the model. -/
def fill (model : Forecaster α) (table : Table α) (columns : List String) (missing : List Bool)
    (covariates : List (List α)) : Except Error (GapFill α) :=
  (Gap.runs missing).foldlM (fillRun model columns covariates) ⟨table, [], none⟩

end GapFill

/-- The numeric columns outside of a measure by name, their gaps closed; columns without any observed
value are left out. -/
def namedCovariates (separator : Char) (t : Table α) (measure : String) :
    List (String × List α) :=
  t.columns.filterMap fun c =>
    match c.cells with
    | .numeric values =>
      if SeriesName.measure separator c.name = measure then none
      else (Carry.dense? values).map (c.name, ·)
    | _ => none

def covariateColumns (separator : Char) (t : Table α) (measure : String) : List (List α) :=
  (namedCovariates separator t measure).map (·.2)

/-- Columns read across: one list per listed row. -/
def rowsOf (columns : List (List α)) (rows : List Nat) : List (List α) :=
  rows.map fun i => columns.map (·.getD i 0)

end Infill
