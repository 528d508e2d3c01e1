import Infill.Scalar.Double

/-! A finite number is a number: what is checked to be finite is an observed value where it is
written. -/

namespace Infill.Scalar

class FiniteIsNumber (α : Type) [Scalar α] : Prop where
  isNaN_of_isFinite : ∀ {x : α}, isFinite x = true → isNaN x = false

theorem observed_of_isFinite {α : Type} [Scalar α] [FiniteIsNumber α] {x : α}
    (h : isFinite x = true) : observed (some x) = some x := by
  simp [observed, FiniteIsNumber.isNaN_of_isFinite h]

/-- Of doubles, zeros, subnormals and normals are finite; none of them is NaN. -/
instance : FiniteIsNumber Float where
  isNaN_of_isFinite {x} h := by
    have hfinite : x.toModel.unpack.isFinite = true := h
    have hnumber : x.toModel.unpack.isNaN = false := by
      cases hx : x.toModel.unpack <;> rw [hx] at hfinite <;> first | rfl | cases hfinite
    exact hnumber

end Infill.Scalar
