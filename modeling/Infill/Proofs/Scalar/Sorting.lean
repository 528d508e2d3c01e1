import Infill.Proofs.Scalar.Order

/-! Sorting agrees with comparing: numbers that are sorted ascend, and two of them that are at most
each other count as equal. Of doubles this is read off their bits. Half of the way between two numbers
does not lie below the lower one. -/

namespace Infill

namespace Scalar

/-- What a cut between sorted values relies on. -/
class SortsNumbers (α : Type) [Scalar α] : Prop extends OrdersNumbers α where
  isNaN_nan : isNaN (nan : α) = true
  sortLe_trans : ∀ {x y z : α}, sortLe x y = true → sortLe y z = true → sortLe x z = true
  sortLe_total : ∀ x y : α, (sortLe x y || sortLe y x) = true
  le_of_sortLe : ∀ {x y : α}, isNaN x = false → isNaN y = false → sortLe x y = true → x ≤ y
  beq_of_le : ∀ {x y : α}, x ≤ y → y ≤ x → (x == y) = true

/-- Half of the way up may be lost to a difference that is too large, but it does not lead down. -/
class Bisects (α : Type) [Scalar α] : Prop where
  le_middle : ∀ {low high : α}, low < high →
    isNaN (low + (high - low) / ((2 : Nat) : α)) = true ∨
      low ≤ low + (high - low) / ((2 : Nat) : α)

end Scalar

namespace Exact

variable {K : Type} [ExactNumber K]

instance : Scalar.SortsNumbers (Exact K) where
  isNaN_nan := rfl
  sortLe_trans {x y z} hxy hyz := by
    rcases x with x | - <;> rcases y with y | - <;> rcases z with z | -
    · have hxy : x ≤ y := of_decide_eq_true hxy
      have hyz : y ≤ z := of_decide_eq_true hyz
      exact decide_eq_true (hxy.trans hyz)
    all_goals first
      | rfl
      | exact absurd hxy Bool.false_ne_true
      | exact absurd hyz Bool.false_ne_true
  sortLe_total x y := by
    rcases x with x | - <;> rcases y with y | -
    · rw [Bool.or_eq_true]
      exact (le_total x y).imp decide_eq_true decide_eq_true
    all_goals rfl
  le_of_sortLe {x y} hx hy h := by
    rcases x with x | -
    · rcases y with y | -
      · exact of_decide_eq_true h
      · cases hy
    · cases hx
  beq_of_le {x y} hxy hyx := by
    rcases x with x | -
    · rcases y with y | -
      · exact decide_eq_true (le_antisymm hxy hyx)
      · cases hyx
    · cases hxy

instance : Scalar.Bisects (Exact K) where
  le_middle {low high} h := by
    rcases low with low | -
    · rcases high with high | -
      · have hlt : low < high := h
        have htwo : (0 : K) < (2 : Nat) := by norm_num
        refine .inr ?_
        change number low ≤ number low + number (high - low) / number ((2 : Nat) : K)
        rw [number_div htwo.ne', number_add]
        exact le_add_of_nonneg_right (div_nonneg (sub_nonneg.2 hlt.le) htwo.le)
      · cases h
    · cases h

end Exact

namespace Double

open Float.Model (UnpackedFloat Format)

def magnitude (exponent mantissa : Nat) : Int × Int × Int :=
  if exponent = 2047 then (2, 0, 0)
  else if exponent = 0 then if mantissa = 0 then (0, 0, 0) else (1, -1074, mantissa)
  else (1, exponent - 1075, 2 ^ 52 + mantissa)

def signed (positive : Bool) : Int × Int × Int → Int ×ₗ Int ×ₗ Int
  | (kind, exponent, significand) =>
    if positive then toLex (kind, toLex (exponent, significand))
    else toLex (-kind, toLex (-exponent, -significand))

def bitsRank (bits : Nat) : Int ×ₗ Int ×ₗ Int :=
  signed (bits < 2 ^ 63) (magnitude (bits / 2 ^ 52 % 2 ^ 11) (bits % 2 ^ 52))

theorem toNat_unpackSign (b : BitVec Format.binary64.numBits) :
    (UnpackedFloat.unpackSign b).toNat = b.toNat / 2 ^ 63 % 2 := by
  change (b.extractLsb' 63 1).toNat = _
  rw [BitVec.extractLsb'_toNat, Nat.shiftRight_eq_div_pow]

theorem toNat_unpackMantissa (b : BitVec Format.binary64.numBits) :
    (UnpackedFloat.unpackMantissa b).toNat = b.toNat % 2 ^ 52 := by
  change (b.extractLsb' 0 52).toNat = _
  rw [BitVec.extractLsb'_toNat, Nat.shiftRight_zero]

theorem toNat_unpackExponent (b : BitVec Format.binary64.numBits) :
    (UnpackedFloat.unpackExponent b).toNat = b.toNat / 2 ^ 52 % 2 ^ 11 := by
  change (b.extractLsb' 52 11).toNat = _
  rw [BitVec.extractLsb'_toNat, Nat.shiftRight_eq_div_pow]

theorem sign_unpack (b : BitVec Format.binary64.numBits) :
    UnpackedFloat.Sign.ofBitVec (UnpackedFloat.unpackSign b) =
      if b.toNat < 2 ^ 63 then .positive else .negative := by
  have hzero : UnpackedFloat.unpackSign b = 0#1 ↔ b.toNat < 2 ^ 63 := by
    have hb : b.toNat < 2 ^ 64 := b.isLt
    rw [← BitVec.toNat_inj, toNat_unpackSign]
    change b.toNat / 2 ^ 63 % 2 = 0 ↔ _
    omega
  simp only [UnpackedFloat.Sign.ofBitVec, hzero]

section Sign

variable (p : Prop) [Decidable p]

theorem rank_infinity : rank (.infinity (if p then .positive else .negative)) =
    some (signed p (2, 0, 0)) := by
  by_cases hp : p
  · rw [if_pos hp, decide_eq_true hp]; rfl
  · rw [if_neg hp, decide_eq_false hp]; rfl

theorem rank_zero : rank (.zero (if p then .positive else .negative)) =
    some (signed p (0, 0, 0)) := by
  by_cases hp : p
  · rw [if_pos hp, decide_eq_true hp]; rfl
  · rw [if_neg hp, decide_eq_false hp]; rfl

theorem rank_finite (m : Nat) (e : Int) (hm : 0 < m) :
    rank (.finite (if p then .positive else .negative) m e hm) = some (signed p (1, e, m)) := by
  by_cases hp : p
  · rw [if_pos hp, decide_eq_true hp]; rfl
  · rw [if_neg hp, decide_eq_false hp]; rfl

end Sign

theorem rank_unpack {b : BitVec Format.binary64.numBits}
    (h : (UnpackedFloat.unpack Format.binary64 b).isNaN = false) :
    rank (UnpackedFloat.unpack Format.binary64 b) = some (bitsRank b.toNat) := by
  have htop : UnpackedFloat.unpackExponent b = -1#_ ↔ b.toNat / 2 ^ 52 % 2 ^ 11 = 2047 := by
    rw [← BitVec.toNat_inj, toNat_unpackExponent]
    rfl
  have hbottom : UnpackedFloat.unpackExponent b = 0#_ ↔ b.toNat / 2 ^ 52 % 2 ^ 11 = 0 := by
    rw [← BitVec.toNat_inj, toNat_unpackExponent]
    rfl
  have hempty : UnpackedFloat.unpackMantissa b = 0#_ ↔ b.toNat % 2 ^ 52 = 0 := by
    rw [← BitVec.toNat_inj, toNat_unpackMantissa]
    rfl
  have hbias : (Format.binary64.exponentBias : Int) = 1023 := rfl
  have hbits : (Format.binary64.mantissaBitsWithoutImplicit : Int) = 52 := rfl
  unfold UnpackedFloat.unpack at h ⊢
  unfold bitsRank magnitude
  dsimp only at h ⊢
  rw [sign_unpack] at h ⊢
  by_cases hinfinite : UnpackedFloat.unpackExponent b = -1#_
  · rw [if_pos hinfinite] at h ⊢
    rw [if_pos (htop.1 hinfinite)]
    by_cases hm : UnpackedFloat.unpackMantissa b = 0#_
    · rw [if_pos hm, rank_infinity]
    · rw [if_neg hm] at h
      cases h
  rw [if_neg hinfinite, if_neg (mt htop.2 hinfinite)]
  by_cases hsmall : UnpackedFloat.unpackExponent b = 0#_
  · rw [if_pos hsmall, if_pos (hbottom.1 hsmall)]
    by_cases hm : UnpackedFloat.unpackMantissa b = 0#_
    · rw [dif_pos hm, if_pos (hempty.1 hm), rank_zero]
    · rw [dif_neg hm, if_neg (mt hempty.2 hm), rank_finite, toNat_unpackMantissa, hsmall, hbias,
        hbits]
      rfl
  · have hnormal : ((1#1 ++ UnpackedFloat.unpackMantissa b).toNat : Int) =
        2 ^ 52 + (b.toNat % 2 ^ 52 : Nat) := by
      rw [BitVec.toNat_append, toNat_unpackMantissa,
        ← Nat.shiftLeft_add_eq_or_of_lt (Nat.mod_lt _ (by norm_num))]
      rfl
    rw [if_neg hsmall, if_neg (mt hbottom.2 hsmall), rank_finite, hnormal, toNat_unpackExponent,
      hbias, hbits]
    rfl

theorem signed_le {e m e' m' : Nat} (h : e * 2 ^ 52 + m ≤ e' * 2 ^ 52 + m') (hm : m < 2 ^ 52)
    (hm' : m' < 2 ^ 52) (he' : e' ≤ 2047) :
    signed true (magnitude e m) ≤ signed true (magnitude e' m') ∧
      signed false (magnitude e' m') ≤ signed false (magnitude e m) := by
  unfold magnitude
  split_ifs <;> simp [signed, Prod.Lex.toLex_le_toLex] <;> omega

theorem signed_false_le_true (e m e' m' : Nat) :
    signed false (magnitude e m) ≤ signed true (magnitude e' m') := by
  unfold magnitude
  split_ifs <;> simp [signed, Prod.Lex.toLex_le_toLex]

/-- The bits of negative doubles ascend when the doubles descend; their keys do not. -/
theorem bitsRank_le {x y : Float} (h : sortKey x ≤ sortKey y) :
    bitsRank x.toBits.toNat ≤ bitsRank y.toBits.toNat := by
  have hx : x.toBits.toNat < 2 ^ 64 := x.toBits.toNat_lt
  have hy : y.toBits.toNat < 2 ^ 64 := y.toBits.toNat_lt
  have hhalf : Nat.pow 2 63 = 2 ^ 63 := rfl
  unfold sortKey at h
  unfold bitsRank
  by_cases hposx : x.toBits.toNat < 2 ^ 63 <;> by_cases hposy : y.toBits.toNat < 2 ^ 63 <;>
    simp only [hposx, hposy, hhalf, if_true, if_false, decide_true, decide_false] at h ⊢
  · exact (signed_le (by omega) (by omega) (by omega) (by omega)).1
  · omega
  · exact signed_false_le_true _ _ _ _
  · exact (signed_le (by omega) (by omega) (by omega) (by omega)).2

instance : Scalar.SortsNumbers Float where
  isNaN_nan := rfl
  sortLe_trans hxy hyz :=
    decide_eq_true ((of_decide_eq_true hxy).trans (of_decide_eq_true hyz))
  sortLe_total x y := by
    rw [Bool.or_eq_true]
    exact (Int.le_total (sortKey x) (sortKey y)).imp decide_eq_true decide_eq_true
  le_of_sortLe hx hy h := by
    refine decide_eq_true_iff.2 ((le_iff_rank _ _).2 ⟨_, rank_unpack hx, _, rank_unpack hy, ?_⟩)
    exact bitsRank_le (of_decide_eq_true h)
  beq_of_le {x y} hxy hyx := by
    obtain ⟨a, ha, b, hb, hab⟩ := (le_iff_rank _ _).1 (decide_eq_true_iff.1 hxy)
    obtain ⟨b', hb', a', ha', hba⟩ := (le_iff_rank _ _).1 (decide_eq_true_iff.1 hyx)
    obtain rfl := Option.some.inj (hb.symm.trans hb')
    obtain rfl := Option.some.inj (ha.symm.trans ha')
    change (x.toModel.unpack.compare y.toModel.unpack == some .eq) = true
    rw [compare_eq_rank, ha, hb, le_antisymm hab hba]
    simp

end Double

end Infill
