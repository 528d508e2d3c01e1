import Infill.Error
import Infill.Scalar

/-!
Columns of typed cells. A cell may be missing: it holds nothing, or a number that is not one. A row
past the end of a column is missing as well.
-/

namespace Infill

open Calendar (DateTime)

inductive Cells (α : Type)
  | numeric (values : List (Option α))
  | categorical (labels : List (Option String))
  | datetime (times : List (Option DateTime))

namespace Cells

variable {α : Type} [Scalar α]

def length : Cells α → Nat
  | .numeric xs => xs.length
  | .categorical xs => xs.length
  | .datetime xs => xs.length

def isMissing (cells : Cells α) (row : Nat) : Bool :=
  match cells with
  | .numeric xs => (xs[row]?.bind Scalar.observed).isNone
  | .categorical xs => (xs[row]?.join).isNone
  | .datetime xs => (xs[row]?.join).isNone

def numberLabel (x : Option α) : Option String := (Scalar.observed x).map Scalar.text

def timeLabel (t : Option DateTime) : Option String := t.map DateTime.text

/-- The labels of all rows, none where a cell is missing. -/
def labels : Cells α → List (Option String)
  | .numeric xs => xs.map numberLabel
  | .categorical xs => xs
  | .datetime xs => xs.map timeLabel

/-- The label of one row. -/
def label? (cells : Cells α) (row : Nat) : Option String :=
  match cells with
  | .numeric xs => xs[row]?.bind numberLabel
  | .categorical xs => xs[row]?.join
  | .datetime xs => xs[row]?.bind timeLabel

/-- Which rows are missing. -/
def mask : Cells α → List Bool
  | .numeric xs => xs.map fun x => (Scalar.observed x).isNone
  | .categorical xs => xs.map Option.isNone
  | .datetime xs => xs.map Option.isNone

def missingCount (cells : Cells α) : Nat := cells.mask.count true

/-- The cells of the given rows, in the given order. -/
def take (rows : List Nat) : Cells α → Cells α
  | .numeric xs => .numeric (rows.map fun i => xs[i]?.join)
  | .categorical xs => .categorical (rows.map fun i => xs[i]?.join)
  | .datetime xs => .datetime (rows.map fun i => xs[i]?.join)

end Cells

structure Column (α : Type) where
  name : String
  cells : Cells α

namespace Column

variable {α : Type} [Scalar α]

def length (c : Column α) : Nat := c.cells.length

def values (c : Column α) : Except Error (List (Option α)) :=
  match c.cells with
  | .numeric xs => .ok xs
  | _ => .error (.columnType c.name .numeric)

def times (c : Column α) : Except Error (List (Option DateTime)) :=
  match c.cells with
  | .datetime xs => .ok xs
  | _ => .error (.columnType c.name .datetime)

end Column
end Infill
