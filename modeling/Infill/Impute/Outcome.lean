import Infill.Search.Grid
import Infill.Split
import Infill.Table.Basic

/-!
The outcome of filling the missing cells of a target: the filled table, the cells that were written,
the scores of the chosen configuration, and what stood in the way.
-/

namespace Infill

/-- A prediction written into a table. -/
structure FilledCell (α : Type) where
  column : String
  row : Nat
  value : α

/-- Writes predictions into the values of their column. -/
def FilledCell.write {α : Type} (filled : List (FilledCell α)) (cells : List (Option α)) :
    List (Option α) :=
  filled.foldl (fun cells c => cells.set c.row (some c.value)) cells

structure Imputation (α : Type) where
  table : Table α
  /-- The written cells; none where nothing was missing or the final fit failed. -/
  filled : Option (List (FilledCell α))
  /-- The split of the observed rows; none where nothing was missing. -/
  split : Option Split
  best : Option Search.Config
  score : Option α
  accuracy : Option α
  /-- The number of trials that gave a result. -/
  successes : Nat
  /-- The reason of a failed search or final fit, or the first gap left open. -/
  failure : Option Error

namespace Imputation

variable {α : Type}

/-- Nothing was missing. -/
def unchanged (table : Table α) : Imputation α :=
  ⟨table, none, none, none, none, none, 0, none⟩

/-- A search was made and came to nothing. -/
def failed (table : Table α) (split : Split) (successes : Nat) (reason : Error) : Imputation α :=
  ⟨table, none, some split, none, none, none, successes, some reason⟩

def isNoOp (i : Imputation α) : Bool := i.filled.isNone && i.failure.isNone && i.split.isNone

def filledCount (i : Imputation α) : Nat := (i.filled.map List.length).getD 0

/-- Configurations were tried, so that there is a time to report. -/
def wasSearched (i : Imputation α) : Bool := i.split.isSome

end Imputation
end Infill
