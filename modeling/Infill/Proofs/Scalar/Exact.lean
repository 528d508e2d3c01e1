import Mathlib.Algebra.BigOperators.Group.List.Basic
import Mathlib.Algebra.Field.Rat
import Mathlib.Algebra.Order.Field.Basic
import Mathlib.Algebra.Order.Ring.Rat
import Mathlib.Data.Rat.Floor
import Mathlib.Data.Rat.Sqrt
import Infill.Scalar

/-! Exact arithmetic. A value is a number of an ordered field, or it is not a number: that is what a
division by zero and the root of a negative number give, and what it takes part in becomes. Sums and
averages of numbers are those of the field. -/

namespace Infill

/-- Sums do not depend on the order of what is added. -/
class Scalar.SumsUnordered (α : Type) [Scalar α] : Prop where
  sum_perm : ∀ {xs ys : List α}, xs.Perm ys → sum xs = sum ys

/-- A number that is read exactly, or none. -/
inductive Exact (K : Type)
  | number (x : K)
  | nan
  deriving DecidableEq

/-- An ordered field whose numbers have a whole part, a root and a text. -/
class ExactNumber (K : Type) extends Field K, LinearOrder K, IsStrictOrderedRing K,
    FloorRing K where
  sqrt : K → K
  text : K → String

namespace Exact

variable {K : Type}

def number? : Exact K → Option K
  | number x => some x
  | nan => none

/-- An operation on numbers; a part that is not a number makes a whole that is not one. -/
def lift₂ (f : K → K → Exact K) : Exact K → Exact K → Exact K
  | number x, number y => f x y
  | _, _ => nan

/-- A comparison of numbers, which no other value passes. -/
def Compares (r : K → K → Prop) : Exact K → Exact K → Prop
  | number x, number y => r x y
  | _, _ => False

instance (r : K → K → Prop) [DecidableRel r] : DecidableRel (Compares r)
  | number x, number y => inferInstanceAs (Decidable (r x y))
  | number _, nan | nan, number _ | nan, nan => inferInstanceAs (Decidable False)

section Rounding

variable [ExactNumber K]

/-- The nearest whole number, a half going away from zero. -/
def nearest (x : K) : ℤ := if 0 ≤ x then ⌊x + 1 / 2⌋ else ⌈x - 1 / 2⌉

/-- The whole part, towards zero. -/
def wholePart (x : K) : ℤ := if 0 ≤ x then ⌊x⌋ else ⌈x⌉

end Rounding

instance [ExactNumber K] : Scalar (Exact K) where
  zero := number 0
  one := number 1
  add := lift₂ fun x y => number (x + y)
  sub := lift₂ fun x y => number (x - y)
  mul := lift₂ fun x y => number (x * y)
  div := lift₂ fun x y => if y = 0 then nan else number (x / y)
  neg
    | number x => number (-x)
    | nan => nan
  natCast n := number n
  intCast i := number i
  lt := Compares (· < ·)
  le := Compares (· ≤ ·)
  beq x y := decide (Compares (· = ·) x y)
  decLt := inferInstanceAs (DecidableRel (Compares _))
  decLe := inferInstanceAs (DecidableRel (Compares _))
  sqrt
    | number x => if x < 0 then nan else number (ExactNumber.sqrt x)
    | nan => nan
  round
    | number x => number (nearest x)
    | nan => nan
  toWord
    | number x => min (wholePart x).toNat (2 ^ 64 - 1)
    | nan => 0
  toSignedWord
    | number x => max (-2 ^ 63) (min (wholePart x) (2 ^ 63 - 1))
    | nan => 0
  nan := nan
  isNaN x := x.number?.isNone
  isFinite x := x.number?.isSome
  sortLe
    | number x, number y => x ≤ y
    | number _, nan | nan, nan => true
    | nan, number _ => false
  text
    | number x => ExactNumber.text x
    | nan => "NaN"

section Sums

variable [ExactNumber K]

instance : Std.Associative fun x y : Exact K => x + y where
  assoc x y z := by
    rcases x with x | - <;> rcases y with y | - <;> rcases z with z | -
    · exact congrArg number (add_assoc x y z)
    all_goals rfl

instance : Std.Commutative fun x y : Exact K => x + y where
  comm x y := by
    rcases x with x | - <;> rcases y with y | -
    · exact congrArg number (add_comm x y)
    all_goals rfl

instance : Std.LawfulIdentity (fun x y : Exact K => x + y) 0 where
  left_id x := by
    rcases x with x | -
    · exact congrArg number (zero_add x)
    · rfl
  right_id x := by
    rcases x with x | -
    · exact congrArg number (add_zero x)
    · rfl

theorem add_zero_right (x : Exact K) : x + 0 = x := Std.LawfulRightIdentity.right_id x

theorem sum_append (xs ys : List (Exact K)) :
    Scalar.sum (xs ++ ys) = Scalar.sum xs + Scalar.sum ys := by
  calc Scalar.sum (xs ++ ys)
    _ = ys.foldl (· + ·) (Scalar.sum xs) := List.foldl_append
    _ = ys.foldl (· + ·) (Scalar.sum xs + 0) := by rw [add_zero_right]
    _ = Scalar.sum xs + Scalar.sum ys := List.foldl_assoc

instance : Scalar.SumsUnordered (Exact K) where
  sum_perm h := h.foldl_op_eq

theorem mul_zero_of_isFinite {c : Exact K} (h : Scalar.isFinite c = true) : c * 0 = 0 := by
  rcases c with c | -
  · exact congrArg number (mul_zero c)
  · cases h

end Sums

section Averages

variable [ExactNumber K]

theorem number_add (x y : K) : number x + number y = number (x + y) := rfl

theorem number_div {x y : K} (h : y ≠ 0) : number x / number y = number (x / y) := if_neg h

theorem one_div_natCast {n : Nat} (h : n ≠ 0) : 1 / (n : Exact K) = number (1 / (n : K)) :=
  number_div (Nat.cast_ne_zero.2 h)

/-- A cell holds a value when it holds a number. -/
theorem observed_eq (cell : Option (Exact K)) :
    Scalar.observed cell = (cell.bind number?).map number := by
  rcases cell with - | (x | -) <;> rfl

theorem sum_numbers (xs : List K) : Scalar.sum (xs.map number) = number xs.sum := by
  have key : ∀ total : K,
      (xs.map number).foldl (· + ·) (number total) = number (total + xs.sum) := by
    induction xs with
    | nil => simp
    | cons x xs ih =>
      intro total
      rw [List.map_cons, List.foldl_cons, number_add, ih, List.sum_cons, add_assoc]
  exact (key 0).trans (by rw [zero_add])

theorem sum_squares {β : Type} (f : β → K) (xs : List β) :
    Scalar.sum (xs.map fun x => Scalar.square (number (f x))) =
      number ((xs.map fun x => f x ^ 2).sum) := by
  rw [← sum_numbers, List.map_map]
  congr 1
  refine List.map_congr_left fun x _ => ?_
  exact congrArg number (sq (f x)).symm

def mean? : List K → Option K
  | [] => none
  | xs => some (xs.sum / xs.length)

theorem mean_numbers {xs : List K} (h : xs ≠ []) :
    Scalar.mean (xs.map number) = number (xs.sum / xs.length) := by
  have hlength : (xs.length : K) ≠ 0 := Nat.cast_ne_zero.2 (by simpa using h)
  rw [Scalar.mean, sum_numbers, List.length_map]
  exact number_div hlength

/-- One number is its own average. -/
theorem mean?_toList (x : Option K) : mean? x.toList = x := by
  cases x <;> simp [mean?]

end Averages

instance : ExactNumber ℚ where
  sqrt := Rat.sqrt
  text := toString

end Exact
end Infill
