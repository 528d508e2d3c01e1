import Infill.Settings
import Infill.Table.Basic
import Infill.Text.Case

/-!
Preparing a table for a run: names in lower case, columns without values and rows with missing
covariates dropped, and the target blanked on the last keys to be imputed.
-/

namespace Infill

variable {α : Type} [Scalar α]

structure Prepared (α : Type) where
  table : Table α
  keys : List String
  target : String

namespace Prepare

/-- The columns with a value, under lower-case names. -/
def loweredColumns (t : Table α) : List (Column α) :=
  (t.columns.filter fun c => c.cells.missingCount < c.length).map fun c =>
    { c with name := Text.lower c.name }

/-- Keeps the rows that miss nothing outside of the target and the keys. -/
def normalize (t : Table α) (keys : List String) (target : String) : Except Error (Prepared α) := do
  if t.rowCount = 0 then throw .emptyData
  let keys := keys.map Text.lower
  let target := Text.lower target
  let lowered ← Table.ofColumns (loweredColumns t)
  let covariates := lowered.columns.filter fun c => c.name ≠ target && !keys.contains c.name
  let kept := (List.range lowered.rowCount).filter fun i =>
    covariates.all fun c => !c.cells.isMissing i
  return ⟨lowered.takeRows kept, keys, target⟩

/-- The column that says which rows to blank: the first whose name holds a date keyword, else the
first key. -/
def nullifyKey (t : Table α) (keys : List String) (settings : Settings α) : Option String :=
  (t.names.find? fun name =>
    settings.dateKeywords.any fun k => Text.occursIn k.word.toList name.toList).or keys.head?

/-- The distinct labels, the one that occurs last in front. -/
def lastFirst (labels : List (Option String)) : List String :=
  (labels.filterMap id).reverse.eraseDups

/-- How many of `keys` distinct keys a share blanks: at least one. -/
def tailCount (keys : Nat) (share : α) : Nat :=
  max (Scalar.toWord ((keys : α) * share / ((100 : Nat) : α))) 1

/-- Blanks the values whose label is among the given ones. -/
def blankKeys (labels : List (Option String)) (blanked : List String)
    (values : List (Option α)) : List (Option α) :=
  values.mapIdx fun i value =>
    match labels[i]?.join with
    | some label => if blanked.contains label then none else value
    | none => value

/-- Blanks the target on every row of the last share of keys, in percent. -/
def nullifyTail (t : Table α) (keys : List String) (target : String) (share : α)
    (settings : Settings α) : Except Error (Table α) := do
  if share ≤ 0 then return t
  match nullifyKey t keys settings with
  | none => throw (.invalidParameter "no column to nullify by")
  | some key =>
    let labels := (← t.column key).cells.labels
    let order := lastFirst labels
    t.update target (blankKeys labels (order.take (tailCount order.length share)))

end Prepare

/-- What a run is asked to do, in numbers. -/
structure Intention (α : Type) where
  executionId : String
  nullifyShare : α
  rows : Nat
  missing : Nat
  observed : Nat
  testShare : α
  /-- The bound on the accuracy window, relative to the number of rows. -/
  accuracyShare : α

def Intention.describe (t : Table α) (target executionId : String) (nullifyShare : α)
    (settings : Settings α) : Except Error (Intention α) := do
  let missing ← t.missingCount target
  return {
    executionId
    nullifyShare
    rows := t.rowCount
    missing
    observed := t.rowCount - missing
    testShare := settings.testShare
    accuracyShare :=
      if t.rowCount = 0 then 0 else (settings.accuracySize : α) / (t.rowCount : α) }

end Infill
