import Infill.Linear.LeastSquares
import Infill.Proofs.Linear.Definite
import Infill.Proofs.Series.Integration

/-! Lists of numbers. A list of as many numbers as a vector has entries is the list of the entries of
one. What is computed from numbers without a division is a number: sums of products, and so what a
fit predicts, are numbers, and an average is one too where there is something to average. -/

namespace Infill

variable {K : Type} [ExactNumber K] {n m : Nat}

namespace Exact

open Scalar (isFinite)

def NumbersOf (n : Nat) (xs : List (Exact K)) : Prop := xs.length = n ∧ Numbers xs

variable {xs ys : List (Exact K)}

theorem numbersOf_entries (v : Fin n → K) : NumbersOf n (entries v) := by
  refine ⟨length_entries v, fun x hx => ?_⟩
  obtain ⟨i, rfl⟩ := List.mem_ofFn.1 hx
  rfl

theorem isFinite_mul {x y : Exact K} (hx : isFinite x = true) (hy : isFinite y = true) :
    isFinite (x * y) = true := by
  rcases x with x | - <;> rcases y with y | - <;> trivial

theorem Numbers.isFinite_sum (h : Numbers xs) : isFinite (Scalar.sum xs) = true :=
  List.foldlRecOn (motive := fun total => isFinite total = true) xs _ rfl fun _ htotal x hx =>
    isFinite_add htotal (h x hx)

theorem Numbers.zipWith {f : Exact K → Exact K → Exact K} (h : Numbers xs) (h' : Numbers ys)
    (hf : ∀ {x y}, isFinite x = true → isFinite y = true → isFinite (f x y) = true) :
    Numbers (List.zipWith f xs ys) := by
  intro z hz
  obtain ⟨i, hi⟩ := List.mem_iff_getElem?.1 hz
  obtain ⟨x, y, hx, hy, rfl⟩ := List.getElem?_zipWith_eq_some.1 hi
  exact hf (h x (List.mem_of_getElem? hx)) (h' y (List.mem_of_getElem? hy))

theorem numbers_zeros (n : Nat) : Numbers (List.replicate n (0 : Exact K)) := by
  intro x hx
  rw [List.eq_of_mem_replicate hx]
  rfl

namespace NumbersOf

theorem exists_entries (h : NumbersOf n xs) : ∃ v : Fin n → K, xs = entries v := by
  obtain ⟨rfl, hxs⟩ := h
  have hnumber : ∀ x ∈ xs, ∃ v, x = number v := by
    rintro (v | -) hx
    · exact ⟨v, rfl⟩
    · exact absurd (hxs _ hx) Bool.false_ne_true
  choose v hv using fun i : Fin xs.length => hnumber _ (List.getElem_mem i.isLt)
  have hall : xs = List.ofFn fun i : Fin xs.length => xs[i] := (List.ofFn_getElem ..).symm
  exact ⟨v, hall.trans (congrArg List.ofFn (funext hv))⟩

theorem append (h : NumbersOf n xs) (h' : NumbersOf m ys) : NumbersOf (n + m) (xs ++ ys) :=
  ⟨by rw [List.length_append, h.1, h'.1], List.forall_mem_append.2 ⟨h.2, h'.2⟩⟩

theorem drop (h : NumbersOf n xs) (k : Nat) : NumbersOf (n - k) (xs.drop k) :=
  ⟨by rw [List.length_drop, h.1], fun x hx => h.2 x (List.mem_of_mem_drop hx)⟩

theorem reverse (h : NumbersOf n xs) : NumbersOf n xs.reverse :=
  ⟨List.length_reverse.trans h.1, h.2.reverse⟩

theorem zeros {β : Type} {values : List β} (h : values.length = n) :
    NumbersOf n (values.map fun _ => (0 : Exact K)) := by
  refine ⟨(List.length_map _).trans h, fun x hx => ?_⟩
  obtain ⟨_, -, rfl⟩ := List.mem_map.1 hx
  rfl

theorem isFinite_mean (h : NumbersOf n xs) (hn : 0 < n) : isFinite (Scalar.mean xs) = true := by
  obtain ⟨v, rfl⟩ := h.exists_entries
  have hne : List.ofFn v ≠ [] := List.ne_nil_of_length_pos (by rwa [List.length_ofFn])
  have hmean := mean_numbers hne
  rw [List.map_ofFn] at hmean
  exact congrArg isFinite hmean

end NumbersOf

end Exact

open Exact (NumbersOf)

structure LeastSquares.Fit.Numeric (f : LeastSquares.Fit (Exact K)) (k : Nat) : Prop where
  intercept : Scalar.isFinite f.intercept = true
  coefficients : NumbersOf k f.coefficients

theorem LeastSquares.Fit.Numeric.predict {f : LeastSquares.Fit (Exact K)} {k : Nat}
    (h : f.Numeric k) {row : List (Exact K)} (hrow : Exact.Numbers row) :
    Scalar.isFinite (f.predict row) = true :=
  Exact.isFinite_add h.intercept (h.coefficients.2.zipWith hrow Exact.isFinite_mul).isFinite_sum

end Infill
