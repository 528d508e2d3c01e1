import Infill.Table.Basic

/-!
Turning a column into a date column. A column of dates is one already; numbers are read through the
text of their nearest whole number, and a cell that holds no finite number stays missing.
-/

namespace Infill

open Calendar (DateTime Granularity)

variable {α : Type} [Scalar α]

/-- The text that a number is read from. -/
def wholeText (x : Option α) : Option String :=
  (x.filter Scalar.isFinite).map fun x => toString (Scalar.toSignedWord (Scalar.round x))

def readCell (column : String) (g : Granularity) :
    Option String → Except Error (Option DateTime)
  | none => .ok none
  | some raw =>
    match g.read? raw with
    | some time => .ok (some time)
    | none => .error (.dateParse column raw g)

def Column.parseDates (g : Granularity) (c : Column α) : Except Error (Column α) :=
  match c.cells with
  | .datetime _ => .ok c
  | .categorical labels => do
    return ⟨c.name, .datetime (← labels.mapM (readCell c.name g))⟩
  | .numeric values => do
    return ⟨c.name, .datetime (← (values.map wholeText).mapM (readCell c.name g))⟩

end Infill
