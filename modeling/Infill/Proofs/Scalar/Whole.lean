import Infill.Proofs.Scalar.Absorbing

/-! Whole numbers are numbers. None of them is read as a value that is missing, and one is told apart
from zero, in exact arithmetic as well as on doubles, where the large ones are rounded. -/

namespace Infill

class Scalar.CountsWhole (α : Type) [Scalar α] : Prop where
  isNaN_intCast : ∀ i : Int, isNaN (i : α) = false
  one_ne_zero : (1 : α) ≠ 0

instance {K : Type} [ExactNumber K] : Scalar.CountsWhole (Exact K) where
  isNaN_intCast _ := rfl
  one_ne_zero h := one_ne_zero (Exact.number.inj h)

namespace Double

open Float.Model (UnpackedFloat Format)
open Float.Model.UnpackedFloat

variable {spec : Format}

variable {c : Prop} [Decidable c]

theorem isNaN_dite {x : c → UnpackedFloat} {y : ¬ c → UnpackedFloat}
    (hx : ∀ h, (x h).isNaN = false) (hy : ∀ h, (y h).isNaN = false) :
    (if h : c then x h else y h).isNaN = false := by
  by_cases h : c
  · rw [dif_pos h]
    exact hx h
  · rw [dif_neg h]
    exact hy h

theorem isNaN_ite {x y : UnpackedFloat} (hx : c → x.isNaN = false) (hy : ¬ c → y.isNaN = false) :
    (if c then x else y).isNaN = false := by
  by_cases h : c
  · rw [if_pos h]
    exact hx h
  · rw [if_neg h]
    exact hy h

/-- Bits are a number unless they have the greatest exponent and a mantissa. -/
theorem isNaN_unpack {sign : Sign} {exponent : BitVec spec.exponentBits}
    {mantissa : BitVec spec.mantissaBitsWithoutImplicit}
    (h : exponent = -BitVec.ofNat spec.exponentBits 1 →
      mantissa = BitVec.ofNat spec.mantissaBitsWithoutImplicit 0) :
    (unpack spec (packComponents spec sign exponent mantissa)).isNaN = false := by
  unfold unpack
  dsimp only
  rw [unpackExponent_packComponents]
  apply isNaN_ite
  · intro htop
    rw [unpackMantissa_packComponents, if_pos (h htop)]
    rfl
  · intro _
    exact isNaN_ite (fun _ => isNaN_dite (fun _ => rfl) fun _ => rfl) fun _ => rfl

theorem zero_ne_top :
    BitVec.ofNat spec.exponentBits 0 ≠ -BitVec.ofNat spec.exponentBits 1 := by
  intro heq
  have hbits := congrArg BitVec.toNat heq
  have hpow : 1 < 2 ^ spec.exponentBits := Nat.one_lt_two_pow spec.he.ne'
  simp only [BitVec.neg_one_eq_allOnes, BitVec.toNat_allOnes, BitVec.toNat_zero] at hbits
  omega

theorem ofNat_ne_top {n : Nat} (h : n + 1 < 2 ^ spec.exponentBits) :
    BitVec.ofNat spec.exponentBits n ≠ -BitVec.ofNat spec.exponentBits 1 := by
  intro heq
  have hbits := congrArg BitVec.toNat heq
  rw [BitVec.toNat_ofNat, Nat.mod_eq_of_lt (by omega)] at hbits
  simp only [BitVec.neg_one_eq_allOnes, BitVec.toNat_allOnes] at hbits
  omega

/-- A number is still one in bits. -/
theorem isNaN_unpack_pack {x : UnpackedFloat} (h : x.isNaN = false) :
    (unpack spec (pack spec x)).isNaN = false := by
  cases x with
  | notANumber => cases h
  | infinity sign => exact isNaN_unpack fun _ => rfl
  | zero sign => exact isNaN_unpack fun htop => absurd htop zero_ne_top
  | finite sign mantissa exponent positive =>
    unfold pack
    dsimp only
    split_ifs with hlarge hnormal
    · exact isNaN_unpack fun _ => rfl
    · exact isNaN_unpack fun htop => absurd htop (ofNat_ne_top (Nat.lt_of_not_le hlarge))
    · exact isNaN_unpack fun htop => absurd htop zero_ne_top

theorem isNaN_roundWithAccuracy (sign : Sign) (mantissa : Nat) (exponent : Int)
    (accuracy : Accuracy) :
    (roundWithAccuracy spec sign mantissa exponent accuracy).isNaN = false := by
  unfold roundWithAccuracy
  exact isNaN_dite (fun _ => rfl) fun _ => rfl

theorem isNaN_unpack_ofNat (n : Nat) : (UnpackedFloat.ofNat spec n).isNaN = false := by
  unfold UnpackedFloat.ofNat UnpackedFloat.ofInt UnpackedFloat.normalize
  split
  · exact isNaN_roundWithAccuracy _ _ _ _
  · rfl
  · exact isNaN_roundWithAccuracy _ _ _ _

theorem isNaN_unpack_ofScientific (m : Nat) {e : Int} (h : 0 ≤ e) :
    (UnpackedFloat.ofScientific spec m e).isNaN = false := by
  unfold UnpackedFloat.ofScientific
  refine isNaN_dite (fun _ => rfl) fun _ => isNaN_ite (fun _ => rfl) fun _ =>
    isNaN_ite (fun _ => rfl) fun _ => ?_
  rw [if_pos h]
  exact isNaN_roundWithAccuracy _ _ _ _

theorem isNaN_ofNat (n : Nat) : (ofNat n).isNaN = false := by
  unfold ofNat
  split_ifs with hword
  · exact isNaN_unpack_pack (isNaN_unpack_ofNat _)
  · have hlarge : ¬ (n < 2 ^ 53 ∧ 0 ≤ 22) := fun h => hword (h.1.trans (by decide))
    rw [Float.ofScientific, dif_neg hlarge]
    exact isNaN_unpack_pack (isNaN_unpack_ofScientific n le_rfl)

theorem isNaN_unpacked_neg (x : UnpackedFloat) : x.neg.isNaN = x.isNaN := by
  cases x <;> rfl

theorem isNaN_neg {x : Float} (h : x.isNaN = false) : (-x).isNaN = false :=
  isNaN_unpack_pack ((isNaN_unpacked_neg x.toModel.unpack).trans h)

instance : Scalar.CountsWhole Float where
  isNaN_intCast i := by
    change (if i < 0 then -ofNat i.natAbs else ofNat i.natAbs).isNaN = false
    split_ifs
    · exact isNaN_neg (isNaN_ofNat _)
    · exact isNaN_ofNat _
  one_ne_zero := by decide

end Double
end Infill
