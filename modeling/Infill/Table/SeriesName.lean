import Infill.Table.Basic

/-!
Names of wide columns. The series of a measure for one slice value is named by both, joined by a
separator; the first separator of a name is the one that counts, so a slice value may hold more.
-/

namespace Infill.SeriesName

variable {α : Type} [Scalar α]

/-- The slice value of a table that is not sliced. -/
def whole : String := "ALL"

def compose (separator : Char) (measure slice : String) : String :=
  String.ofList (measure.toList ++ separator :: slice.toList)

/-- The measure and the slice value of a composed name. -/
def decompose? (separator : Char) (name : String) : Option (String × String) :=
  match name.toList.dropWhile (· ≠ separator) with
  | [] => none
  | _ :: slice => some (String.ofList (name.toList.takeWhile (· ≠ separator)), String.ofList slice)

/-- A name that is not composed is its own measure. -/
def measure (separator : Char) (name : String) : String :=
  ((decompose? separator name).map (·.1)).getD name

def slice? (separator : Char) (name : String) : Option String :=
  (decompose? separator name).map (·.2)

/-- The composed names of a measure, in table order. -/
def ofMeasure (separator : Char) (t : Table α) (measure : String) : List String :=
  t.names.filter fun name => (decompose? separator name).map (·.1) == some measure

/-- The date column and every column of the slice to which `target` belongs: what is known when a
single series is modelled. -/
def sliceFrame (separator : Char) (wide : Table α) (date target : String) :
    Except Error (Table α) := do
  discard <| wide.column target
  match slice? separator target with
  | none => .error (.invalidParameter (target ++ " is not a wide column"))
  | some slice => wide.select (date :: wide.names.filter fun n => slice? separator n == some slice)

end Infill.SeriesName
