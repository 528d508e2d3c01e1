import Mathlib.Algebra.BigOperators.Ring.List
import Mathlib.Algebra.Order.BigOperators.Group.List
import Mathlib.Algebra.Order.Field.Basic
import Mathlib.Data.List.Forall2
import Mathlib.Tactic.FieldSimp
import Mathlib.Tactic.Linarith
import Mathlib.Tactic.Positivity
import Mathlib.Tactic.Ring

/-! The squared error of numbers is taken around their mean. No other centre has a smaller one, so that
numbers that are parted, each part around its own mean, never have a larger one than before. Two series
differ by a sum of squares too, which is zero where they are equal and nowhere else. -/

namespace Infill

section Field

variable {K : Type} [Field K]

def squaresAround (centre : K) (ys : List K) : K := (ys.map fun y => (y - centre) ^ 2).sum

def squaredError (ys : List K) : K := squaresAround (ys.sum / ys.length) ys

theorem squaresAround_append (centre : K) (xs ys : List K) :
    squaresAround centre (xs ++ ys) = squaresAround centre xs + squaresAround centre ys := by
  rw [squaresAround, List.map_append, List.sum_append]
  rfl

/-- The squares multiplied out. -/
theorem squaresAround_eq (centre : K) (ys : List K) : squaresAround centre ys =
    squaresAround 0 ys - 2 * centre * ys.sum + ys.length * centre ^ 2 := by
  unfold squaresAround
  induction ys with
  | nil => simp
  | cons y ys ih =>
    rw [List.map_cons, List.sum_cons, ih, List.map_cons, List.sum_cons, List.sum_cons,
      List.length_cons]
    push_cast
    ring

def squaresBetween (xs ys : List K) : K := ((xs.zip ys).map fun p => (p.1 - p.2) ^ 2).sum

theorem squaresBetween_replicate (centre : K) (xs : List K) :
    squaresBetween xs (List.replicate xs.length centre) = squaresAround centre xs := by
  unfold squaresBetween squaresAround
  induction xs with
  | nil => rfl
  | cons x xs ih =>
    rw [List.length_cons, List.replicate_succ, List.zip_cons_cons, List.map_cons, List.sum_cons, ih,
      List.map_cons, List.sum_cons]

/-- What is added to both series cancels, and what both are multiplied with comes out squared. -/
theorem squaresBetween_affine (a b : K) (xs ys : List K) :
    squaresBetween (xs.map (a * · + b)) (ys.map (a * · + b)) = a ^ 2 * squaresBetween xs ys := by
  unfold squaresBetween
  rw [List.zip_map, List.map_map, ← List.sum_map_mul_left]
  congr 1
  refine List.map_congr_left fun p _ => ?_
  change (a * p.1 + b - (a * p.2 + b)) ^ 2 = a ^ 2 * (p.1 - p.2) ^ 2
  ring

theorem squaredError_perm {xs ys : List K} (h : xs.Perm ys) :
    squaredError xs = squaredError ys := by
  rw [squaredError, squaredError, squaresAround, squaresAround, h.sum_eq, h.length_eq]
  exact (h.map _).sum_eq

end Field

section Ordered

variable {K : Type} [Field K] [LinearOrder K] [IsStrictOrderedRing K]

theorem sum_squares_nonneg {β : Type} (f : β → K) (ps : List β) :
    0 ≤ (ps.map fun p => f p ^ 2).sum := by
  apply List.sum_nonneg
  intro x hx
  obtain ⟨p, -, rfl⟩ := List.mem_map.1 hx
  exact sq_nonneg (f p)

theorem sum_squares_eq_zero_iff {β : Type} (f : β → K) (ps : List β) :
    (ps.map fun p => f p ^ 2).sum = 0 ↔ ∀ p ∈ ps, f p = 0 := by
  induction ps with
  | nil => simp
  | cons p ps ih =>
    rw [List.map_cons, List.sum_cons,
      add_eq_zero_iff_of_nonneg (sq_nonneg _) (sum_squares_nonneg f ps), ih, sq_eq_zero_iff,
      List.forall_mem_cons]

theorem squaresBetween_nonneg (xs ys : List K) : 0 ≤ squaresBetween xs ys :=
  sum_squares_nonneg _ _

theorem squaresBetween_eq_zero_iff {xs ys : List K} (h : xs.length = ys.length) :
    squaresBetween xs ys = 0 ↔ xs = ys := by
  rw [squaresBetween, sum_squares_eq_zero_iff, ← List.forall₂_eq_eq_eq, List.forall₂_iff_zip]
  constructor
  · intro hzero
    exact ⟨h, fun hp => sub_eq_zero.1 (hzero _ hp)⟩
  · intro heq p hp
    exact sub_eq_zero.2 (heq.2 hp)

theorem squaredError_nonneg (ys : List K) : 0 ≤ squaredError ys := sum_squares_nonneg _ _

theorem squaredError_ne_zero {ys : List K} {x y : K} (hx : x ∈ ys) (hy : y ∈ ys) (hne : x ≠ y) :
    squaredError ys ≠ 0 := by
  intro hzero
  rw [squaredError, squaresAround, sum_squares_eq_zero_iff] at hzero
  exact hne ((sub_eq_zero.1 (hzero x hx)).trans (sub_eq_zero.1 (hzero y hy)).symm)

/-- The sum of the squares, less the square of the sum by the count. -/
theorem squaredError_eq (ys : List K) :
    squaredError ys = squaresAround 0 ys - ys.sum ^ 2 / ys.length := by
  rcases eq_or_ne ys [] with rfl | hys
  · simp [squaredError, squaresAround]
  have hlength : (ys.length : K) ≠ 0 := by simpa using hys
  rw [squaredError, squaresAround_eq]
  field_simp
  ring

theorem mean_affine (a b : K) {ys : List K} (h : ys ≠ []) :
    (ys.map (a * · + b)).sum / (ys.map (a * · + b)).length = a * (ys.sum / ys.length) + b := by
  have hlength : (ys.length : K) ≠ 0 := by simpa using h
  have hsum : (ys.map (a * · + b)).sum = a * ys.sum + ys.length * b := by
    rw [List.sum_map_add, List.sum_map_mul_left, List.map_id', List.map_const', List.sum_replicate,
      nsmul_eq_mul]
  rw [hsum, List.length_map]
  field_simp

theorem squaredError_affine (a b : K) (ys : List K) :
    squaredError (ys.map (a * · + b)) = a ^ 2 * squaredError ys := by
  rcases eq_or_ne ys [] with rfl | hys
  · simp [squaredError, squaresAround]
  rw [squaredError, mean_affine a b hys, ← squaresBetween_replicate, List.length_map,
    ← List.map_replicate (f := (a * · + b)), squaresBetween_affine, squaresBetween_replicate,
    squaredError]

/-- What parting takes from the squared error; the squares themselves cancel. -/
theorem squaredError_append_sub (xs ys : List K) :
    squaredError (xs ++ ys) - squaredError xs - squaredError ys =
      xs.sum * xs.sum / xs.length + ys.sum * ys.sum / ys.length -
        (xs ++ ys).sum * (xs ++ ys).sum / (xs ++ ys).length := by
  rw [squaredError_eq, squaredError_eq, squaredError_eq, squaresAround_append]
  ring

/-- The mean is the best centre. -/
theorem squaredError_le (ys : List K) (centre : K) :
    squaredError ys ≤ squaresAround centre ys := by
  rcases eq_or_ne ys [] with rfl | hys
  · simp [squaredError, squaresAround]
  have hlength : (ys.length : K) ≠ 0 := by simpa using hys
  have hdistance : squaresAround centre ys - squaredError ys =
      ys.length * (centre - ys.sum / ys.length) ^ 2 := by
    rw [squaredError_eq, squaresAround_eq centre]
    field_simp
    ring
  have hnonneg : 0 ≤ (ys.length : K) * (centre - ys.sum / ys.length) ^ 2 := by positivity
  linarith

/-- Two parts have no larger error than the whole. -/
theorem squaredError_append_le (xs ys : List K) :
    squaredError xs + squaredError ys ≤ squaredError (xs ++ ys) := by
  rw [squaredError.eq_def (xs ++ ys), squaresAround_append]
  exact add_le_add (squaredError_le xs _) (squaredError_le ys _)

end Ordered

end Infill
