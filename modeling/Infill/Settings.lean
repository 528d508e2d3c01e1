import Infill.Scalar
import Infill.Calendar.Granularity

/-!
The settings of a run, and the sizes of the held-out windows that follow from them.
-/

namespace Infill

/-- A grouping key whose name holds `word` is a date column of this granularity. -/
structure DateKeyword where
  word : String
  granularity : Calendar.Granularity
  deriving DecidableEq, Repr

structure Settings (α : Type) where
  seed : UInt64
  /-- The number of trials that a search may spend. -/
  trials : Nat
  folds : Nat
  /-- Stands between measure and slice in the names of wide columns. -/
  separator : Char
  /-- Earlier keywords come first. -/
  dateKeywords : List DateKeyword
  /-- The share of rows held out for scoring, in percent. -/
  testShare : α
  /-- The longest accuracy window. -/
  accuracySize : Nat
  /-- Gaps of covariates are closed when the table is spread. -/
  fillCovariates : Bool

namespace Settings

variable {α : Type} [Scalar α]

def defaultKeywords : List DateKeyword :=
  [⟨"week", .week⟩, ⟨"month", .month⟩, ⟨"year", .year⟩, ⟨"hour", .timestamp⟩,
   ⟨"timestamp", .timestamp⟩, ⟨"date", .day⟩, ⟨"day", .day⟩]

def standard : Settings α where
  seed := 42
  trials := 20
  folds := 5
  separator := '!'
  dateKeywords := defaultKeywords
  testShare := ((20 : Nat) : α)
  accuracySize := 10
  fillCovariates := true

/-- The number of rows held out of `rows`. -/
def testRows (s : Settings α) (rows : Nat) : Nat :=
  Scalar.toWord (Scalar.round ((rows : α) * s.testShare / ((100 : Nat) : α)))

/-- The accuracy window closes the test window. -/
def accuracyRows (s : Settings α) (testRows : Nat) : Nat := min testRows s.accuracySize

end Settings
end Infill
