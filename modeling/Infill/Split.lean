/-!
A split of ordered rows: a training prefix, a test suffix, and the accuracy window at the end of the
test suffix.
-/

namespace Infill

/-- The positions from `first` up to, and without, `stop`. -/
structure Window where
  first : Nat
  stop : Nat
  deriving DecidableEq, Repr

namespace Window

def length (w : Window) : Nat := w.stop - w.first

/-- The part of a list inside the window. -/
def inside {β : Type} (w : Window) (xs : List β) : List β := (xs.drop w.first).take w.length

/-- The part of a list outside of the window. -/
def outside {β : Type} (w : Window) (xs : List β) : List β := xs.take w.first ++ xs.drop w.stop

end Window

structure Split where
  count : Nat
  testCount : Nat
  accuracyCount : Nat
  test_le : testCount ≤ count
  accuracy_le : accuracyCount ≤ testCount
  deriving DecidableEq, Repr

namespace Split

/-- The test window is at most everything, and the accuracy window at most the test window. -/
def ofSizes (count test accuracy : Nat) : Split where
  count := count
  testCount := min test count
  accuracyCount := min accuracy (min test count)
  test_le := Nat.min_le_right ..
  accuracy_le := Nat.min_le_right ..

def trainCount (s : Split) : Nat := s.count - s.testCount

def train (s : Split) : Window := ⟨0, s.trainCount⟩

def test (s : Split) : Window := ⟨s.trainCount, s.count⟩

def accuracy (s : Split) : Window := ⟨s.count - s.accuracyCount, s.count⟩

end Split
end Infill
