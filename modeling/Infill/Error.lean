import Infill.Calendar.Granularity

/-!
Why an operation has no answer.
-/

namespace Infill

/-- What the cells of a column hold. -/
inductive CellType
  | numeric
  | categorical
  | datetime
  deriving DecidableEq, Repr

def CellType.name : CellType → String
  | .numeric => "numeric"
  | .categorical => "categorical"
  | .datetime => "datetime"

inductive Error
  | emptyData
  | insufficientData (needed got : Nat)
  | invalidParameter (detail : String)
  | dimensionMismatch (expected got : Nat)
  | columnNotFound (name : String)
  | columnType (column : String) (expected : CellType)
  | dateParse (column value : String) (granularity : Calendar.Granularity)
  | singularMatrix (detail : String)
  | nonConvergence (detail : String)
  | fitRequired
  | gapNotFilled (row : Nat) (reason : String)
  | noSuccessfulTrial (model : String)
  deriving DecidableEq, Repr

def Error.message : Error → String
  | .emptyData => "empty input data"
  | .insufficientData needed got => s!"insufficient data: need at least {needed}, got {got}"
  | .invalidParameter detail => "invalid parameter: " ++ detail
  | .dimensionMismatch expected got => s!"dimension mismatch: expected {expected}, got {got}"
  | .columnNotFound name => "column not found: " ++ name
  | .columnType column expected => s!"column '{column}' is not {expected.name}"
  | .dateParse column value granularity =>
    s!"cannot parse '{value}' in column '{column}' as {granularity.name}"
  | .singularMatrix detail => "singular matrix: " ++ detail
  | .nonConvergence detail => "model did not converge: " ++ detail
  | .fitRequired => "model must be fitted before prediction"
  | .gapNotFilled row reason => s!"gap at row {row} left missing: {reason}"
  | .noSuccessfulTrial model => "no successful trial for " ++ model

end Infill
