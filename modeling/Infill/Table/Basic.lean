import Infill.Table.Cells

/-!
Tables: columns in order, found by name. Writing a column replaces the one of its name in place or
adds it at the end, and refuses a length other than the number of rows.
-/

namespace Infill

open Calendar (DateTime)

structure Table (α : Type) where
  columns : List (Column α)
  rowCount : Nat

namespace Table

variable {α : Type} [Scalar α]

def empty : Table α := ⟨[], 0⟩

/-- Puts `c` in the place of the first column of its name, or at the end. -/
def place (c : Column α) : List (Column α) → List (Column α)
  | [] => [c]
  | d :: rest => if d.name = c.name then c :: rest else d :: place c rest

def setColumn (t : Table α) (c : Column α) : Except Error (Table α) :=
  if t.columns.isEmpty then .ok ⟨[c], c.length⟩
  else if c.length = t.rowCount then .ok { t with columns := place c t.columns }
  else .error (.dimensionMismatch t.rowCount c.length)

def ofColumns (columns : List (Column α)) : Except Error (Table α) :=
  columns.foldlM setColumn empty

def names (t : Table α) : List String := t.columns.map (·.name)

def column? (t : Table α) (name : String) : Option (Column α) :=
  t.columns.find? (·.name = name)

def column (t : Table α) (name : String) : Except Error (Column α) :=
  match t.column? name with
  | some c => .ok c
  | none => .error (.columnNotFound name)

def numeric (t : Table α) (name : String) : Except Error (List (Option α)) := do
  (← t.column name).values

def datetime (t : Table α) (name : String) : Except Error (List (Option DateTime)) := do
  (← t.column name).times

/-- Replaces the values of the first column of that name, in a list of columns. -/
def updateFirst (name : String) (f : List (Option α) → List (Option α)) :
    List (Column α) → Except Error (List (Column α))
  | [] => .error (.columnNotFound name)
  | c :: rest =>
    if c.name = name then
      match c.cells with
      | .numeric xs => .ok ({ c with cells := .numeric (f xs) } :: rest)
      | _ => .error (.columnType name .numeric)
    else (updateFirst name f rest).map (c :: ·)

/-- Changes the values of a numeric column. -/
def update (t : Table α) (name : String) (f : List (Option α) → List (Option α)) :
    Except Error (Table α) :=
  (updateFirst name f t.columns).map fun columns => { t with columns }

def setCell (t : Table α) (name : String) (row : Nat) (value : Option α) :
    Except Error (Table α) :=
  t.update name (·.set row value)

/-- The named columns, in the given order. -/
def select (t : Table α) (names : List String) : Except Error (Table α) := do
  ofColumns (← names.mapM t.column)

/-- The given rows, in the given order. -/
def takeRows (t : Table α) (rows : List Nat) : Table α :=
  ⟨t.columns.map fun c => { c with cells := c.cells.take rows }, rows.length⟩

def missingRows (t : Table α) (name : String) : Except Error (List Nat) := do
  let c ← t.column name
  return (List.range t.rowCount).filter c.cells.isMissing

def missingCount (t : Table α) (name : String) : Except Error Nat := do
  return (← t.column name).cells.missingCount

def rowsWithAnyMissing (t : Table α) : List Nat :=
  (List.range t.rowCount).filter fun i => t.columns.any (·.cells.isMissing i)

end Table
end Infill
