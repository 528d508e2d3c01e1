import Infill.Table.Axis
import Infill.Table.SeriesName

/-!
Numeric features of the rows of a table. A number stands for itself and a date for its seconds; of
the distinct labels of a column each one after the first is a feature of its own, which is 1 where
the label stands and 0 elsewhere. Missing numbers and dates are NaN.
-/

namespace Infill

variable {α : Type} [Scalar α]

/-- One entry of every row. -/
structure Feature (α : Type) where
  name : String
  values : List α

namespace Feature

def ofNumber (cell : Option α) : α := cell.getD Scalar.nan

def ofTime (cell : Option Calendar.DateTime) : α :=
  match cell with
  | some time => (time.epochSeconds : α)
  | none => Scalar.nan

def ofLabel (label : String) (cell : Option String) : α := if cell = some label then 1 else 0

/-- The features that a column contributes. -/
def ofColumn (separator : Char) (c : Column α) : List (Feature α) :=
  match c.cells with
  | .numeric xs => [⟨c.name, xs.map ofNumber⟩]
  | .datetime xs => [⟨c.name, xs.map ofTime⟩]
  | .categorical xs =>
    let labels := Axis.ascending (fun a b => decide (a < b)) (xs.filterMap id)
    labels.tail.map fun label =>
      ⟨SeriesName.compose separator c.name label, xs.map (ofLabel label)⟩

end Feature

structure FeatureMatrix (α : Type) where
  names : List String
  rows : List (List α)

namespace FeatureMatrix

/-- The features of every column but the target, one row per row of the table. -/
def encode (separator : Char) (t : Table α) (target : String) : FeatureMatrix α :=
  let features := (t.columns.filter (·.name ≠ target)).flatMap (Feature.ofColumn separator)
  { names := features.map (·.name)
    rows := (List.range t.rowCount).map fun i =>
      features.map fun f => f.values.getD i Scalar.nan }

def featureCount (m : FeatureMatrix α) : Nat := m.names.length

def take (m : FeatureMatrix α) (rows : List Nat) : List (List α) := rows.map (m.rows.getD · [])

end FeatureMatrix
end Infill
