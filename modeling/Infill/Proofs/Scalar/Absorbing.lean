import Infill.Proofs.Scalar.Exact
import Infill.Scalar.Double

/-! What is not a number stays so. A sum that has such a term, or a mean of such a list, is not a number
either, in exact arithmetic as well as on doubles. -/

namespace Infill

namespace Scalar

/-- NaN absorbs what is added to it and what it is divided by. -/
class AbsorbsNaN (α : Type) [Scalar α] : Prop where
  isNaN_nan : isNaN (nan : α) = true
  isNaN_add_left : ∀ {x : α} (y : α), isNaN x = true → isNaN (x + y) = true
  isNaN_add_right : ∀ (x : α) {y : α}, isNaN y = true → isNaN (x + y) = true
  isNaN_div : ∀ {x : α} (y : α), isNaN x = true → isNaN (x / y) = true

namespace AbsorbsNaN

variable {α : Type} [Scalar α] [AbsorbsNaN α]

theorem isNaN_foldl {total : α} (h : isNaN total = true) (xs : List α) :
    isNaN (xs.foldl (· + ·) total) = true := by
  induction xs generalizing total with
  | nil => exact h
  | cons x xs ih => exact ih (isNaN_add_left x h)

theorem isNaN_sum {xs : List α} {x : α} (hx : x ∈ xs) (h : isNaN x = true) :
    isNaN (sum xs) = true := by
  obtain ⟨before, behind, rfl⟩ := List.append_of_mem hx
  rw [sum, List.foldl_append, List.foldl_cons]
  exact isNaN_foldl (isNaN_add_right _ h) behind

theorem isNaN_mean {xs : List α} {x : α} (hx : x ∈ xs) (h : isNaN x = true) :
    isNaN (mean xs) = true :=
  isNaN_div _ (isNaN_sum hx h)

end AbsorbsNaN
end Scalar

instance {K : Type} [ExactNumber K] : Scalar.AbsorbsNaN (Exact K) where
  isNaN_nan := rfl
  isNaN_add_left {x} y h := by
    rcases x with x | -
    · cases h
    · rfl
  isNaN_add_right x {y} h := by
    rcases y with y | -
    · cases h
    · rcases x with x | - <;> rfl
  isNaN_div {x} y h := by
    rcases x with x | -
    · cases h
    · rfl

namespace Double

open Float.Model (UnpackedFloat)

theorem unpack_of_isNaN {x : Float} (h : x.isNaN = true) :
    x.toModel.unpack = .notANumber := by
  have hnan : x.toModel.unpack.isNaN = true := h
  cases hx : x.toModel.unpack <;> rw [hx] at hnan <;> first | rfl | cases hnan

theorem isNaN_pack {result : UnpackedFloat} (h : result = .notANumber) :
    (Float.Model.pack result).isNaN = true := by
  rw [h]
  rfl

theorem notANumber_add (y : UnpackedFloat) :
    UnpackedFloat.add .binary64 .notANumber y = .notANumber := by
  cases y <;> rfl

theorem add_notANumber (x : UnpackedFloat) :
    UnpackedFloat.add .binary64 x .notANumber = .notANumber := by
  cases x <;> rfl

theorem notANumber_div (y : UnpackedFloat) :
    UnpackedFloat.div .binary64 .notANumber y = .notANumber := by
  cases y <;> rfl

instance : Scalar.AbsorbsNaN Float where
  isNaN_nan := rfl
  isNaN_add_left _ h := isNaN_pack (by rw [unpack_of_isNaN h, notANumber_add])
  isNaN_add_right _ _ h := isNaN_pack (by rw [unpack_of_isNaN h, add_notANumber])
  isNaN_div _ h := isNaN_pack (by rw [unpack_of_isNaN h, notANumber_div])

end Double

end Infill
