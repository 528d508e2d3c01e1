import Infill.Table.Axis
import Infill.Table.Carry
import Infill.Table.SeriesName

/-!
Long tables and wide tables. `Pivot.spread` turns a long table into one row per date and one column
per measure and slice value; several rows of one date and slice value are averaged. `Pivot.gather`
turns the series of one measure back into rows of date, slice value and number.
-/

namespace Infill

open Calendar (DateTime)

structure Pivot where
  date : String
  /-- The column whose values tell series apart. -/
  slice : Option String
  /-- The columns to spread; without a choice all of them. -/
  measures : Option (List String)
  /-- The measure whose gaps stay open. -/
  target : String
  fillCovariates : Bool
  separator : Char

namespace Pivot

variable {α : Type} [Scalar α]

def isNumeric (t : Table α) (name : String) : Bool :=
  match t.column? name with
  | some ⟨_, .numeric _⟩ => true
  | _ => false

/-- The numeric columns that are spread: neither the date, nor the slice, nor a row index. -/
def spreadMeasures (p : Pivot) (t : Table α) : List String :=
  (p.measures.getD t.names).filter fun name =>
    name ≠ p.date && some name ≠ p.slice && name ≠ "index" && isNumeric t name

/-- An observed value with the date and the slice value of its row. -/
structure Entry (α : Type) where
  time : DateTime
  slice : String
  value : α

/-- The rows that have a date, a slice value and a number. -/
def entries (times : List (Option DateTime)) (slices : List (Option String))
    (values : List (Option α)) : List (Entry α) :=
  ((times.zip slices).zip values).filterMap fun ((time, slice), value) => do
    return ⟨← time, ← slice, ← Scalar.observed value⟩

/-- The average of the values at one time, if there are any. -/
def average? (group : List (Entry α)) (time : DateTime) : Option α :=
  match (group.filter (·.time = time)).map (·.value) with
  | [] => none
  | values => some (Scalar.mean values)

/-- One column per measure and slice value, measures first. -/
def slicedColumns (p : Pivot) (t : Table α) (slice : String) (date : Column α) :
    Except Error (List (Column α)) := do
  let times ← date.times
  let slices := (← t.column slice).cells.labels
  let timeAxis := Axis.ascending DateTime.before (times.filterMap id)
  let sliceAxis := Axis.ascending (fun a b => decide (a < b)) (slices.filterMap id)
  let series ← (p.spreadMeasures t).mapM fun measure => do
    let known := entries times slices (← t.numeric measure)
    return sliceAxis.map fun slice =>
      let group := known.filter (·.slice = slice)
      Column.mk (SeriesName.compose p.separator measure slice)
        (.numeric (timeAxis.map (average? group)))
  return ⟨p.date, .datetime (timeAxis.map some)⟩ :: series.flatten

/-- The rows as they are, every measure under the name of the whole table. -/
def wholeColumns (p : Pivot) (t : Table α) (date : Column α) : Except Error (List (Column α)) := do
  let series ← (p.spreadMeasures t).mapM fun measure => do
    return Column.mk (SeriesName.compose p.separator measure SeriesName.whole)
      (.numeric (← t.numeric measure))
  return date :: series

/-- Closes the gaps of every column that is neither the date nor a series of the target. -/
def closeCovariates (p : Pivot) (wide : Table α) : Except Error (Table α) :=
  let covariates := wide.names.filter fun name =>
    name ≠ p.date && SeriesName.measure p.separator name ≠ p.target
  covariates.foldlM (fun t name => t.update name Carry.fill) wide

def spread (p : Pivot) (t : Table α) : Except Error (Table α) := do
  let date ← t.column p.date
  let columns ← match p.slice with
    | none => p.wholeColumns t date
    | some slice => p.slicedColumns t slice date
  let wide ← Table.ofColumns columns
  if p.fillCovariates then p.closeCovariates wide else return wide

/-- The series of a measure below each other, in table order; a table that is not sliced stays as it
is. -/
def gather (separator : Char) (wide : Table α) (date : String) (slice : Option String)
    (target : String) : Except Error (Table α) := do
  let some slice := slice | return wide
  let dates ← wide.column date
  let series := SeriesName.ofMeasure separator wide target
  if series.isEmpty then
    throw (.columnNotFound (SeriesName.compose separator target "*"))
  let rows := series.flatMap fun _ => List.range wide.rowCount
  let values ← series.mapM wide.numeric
  let labels := series.flatMap fun name =>
    List.replicate wide.rowCount (some ((SeriesName.slice? separator name).getD ""))
  let long := (← Table.ofColumns [⟨date, dates.cells⟩]).takeRows rows
  let long ← long.setColumn ⟨slice, .categorical labels⟩
  long.setColumn ⟨target, .numeric values.flatten⟩

end Pivot
end Infill
