import Mathlib.Algebra.Order.Ring.Int
import Mathlib.Data.Prod.Lex
import Mathlib.Order.Compare
import Infill.Proofs.Scalar.Exact
import Infill.Scalar.Double

/-! Comparisons order the numbers. Of two of them one is at most the other, and the strict comparison
holds where the other does not hold the other way round; a value that is not a number takes part in
no comparison. -/

namespace Infill

namespace Scalar

/-- What scores and features rely on when they are compared. -/
class OrdersNumbers (α : Type) [Scalar α] : Prop where
  le_refl : ∀ {x : α}, isNaN x = false → x ≤ x
  le_trans : ∀ {x y z : α}, x ≤ y → y ≤ z → x ≤ z
  le_total : ∀ {x y : α}, isNaN x = false → isNaN y = false → x ≤ y ∨ y ≤ x
  lt_iff : ∀ {x y : α}, x < y ↔ x ≤ y ∧ ¬ y ≤ x
  isNaN_of_le : ∀ {x y : α}, x ≤ y → isNaN x = false ∧ isNaN y = false

namespace OrdersNumbers

variable {α : Type} [Scalar α]

/-- Numbers are ordered by the rank that each of them has in a linear order. -/
theorem of_rank {L : Type} [LinearOrder L] (rank : α → Option L)
    (hnan : ∀ x, isNaN x = (rank x).isNone)
    (hle : ∀ x y, x ≤ y ↔ ∃ a, rank x = some a ∧ ∃ b, rank y = some b ∧ a ≤ b)
    (hlt : ∀ x y, x < y ↔ ∃ a, rank x = some a ∧ ∃ b, rank y = some b ∧ a < b) :
    OrdersNumbers α where
  le_refl {x} h := by
    rw [hnan, Option.isNone_eq_false_iff, Option.isSome_iff_exists] at h
    obtain ⟨a, ha⟩ := h
    exact (hle x x).2 ⟨a, ha, a, ha, le_rfl⟩
  le_trans {x y z} hxy hyz := by
    obtain ⟨a, ha, b, hb, hab⟩ := (hle x y).1 hxy
    obtain ⟨b', hb', c, hc, hbc⟩ := (hle y z).1 hyz
    obtain rfl := Option.some.inj (hb.symm.trans hb')
    exact (hle x z).2 ⟨a, ha, c, hc, hab.trans hbc⟩
  le_total {x y} hx hy := by
    rw [hnan, Option.isNone_eq_false_iff, Option.isSome_iff_exists] at hx hy
    obtain ⟨a, ha⟩ := hx
    obtain ⟨b, hb⟩ := hy
    refine (LinearOrder.le_total a b).imp (fun hab => ?_) fun hba => ?_
    · exact (hle x y).2 ⟨a, ha, b, hb, hab⟩
    · exact (hle y x).2 ⟨b, hb, a, ha, hba⟩
  lt_iff {x y} := by
    rw [hlt, hle, hle]
    constructor
    · rintro ⟨a, ha, b, hb, hab⟩
      refine ⟨⟨a, ha, b, hb, hab.le⟩, ?_⟩
      rintro ⟨b', hb', a', ha', hba⟩
      obtain rfl := Option.some.inj (hb.symm.trans hb')
      obtain rfl := Option.some.inj (ha.symm.trans ha')
      exact absurd hab (not_lt_of_ge hba)
    · rintro ⟨⟨a, ha, b, hb, -⟩, hnot⟩
      exact ⟨a, ha, b, hb, lt_of_not_ge fun hba => hnot ⟨b, hb, a, ha, hba⟩⟩
  isNaN_of_le {x y} h := by
    obtain ⟨a, ha, b, hb, -⟩ := (hle x y).1 h
    simp [hnan, ha, hb]

variable [OrdersNumbers α] {x y z : α}

theorem le_of_lt (h : x < y) : x ≤ y := (lt_iff.1 h).1

theorem lt_trans (hxy : x < y) (hyz : y < z) : x < z := by
  obtain ⟨hle, -⟩ := lt_iff.1 hxy
  obtain ⟨hle', hnot⟩ := lt_iff.1 hyz
  exact lt_iff.2 ⟨le_trans hle hle', fun hzx => hnot (le_trans hzx hle)⟩

end OrdersNumbers
end Scalar

namespace Exact

theorem compares_iff {K : Type} {r : K → K → Prop} {x y : Exact K} :
    Compares r x y ↔ ∃ a, x.number? = some a ∧ ∃ b, y.number? = some b ∧ r a b := by
  rcases x with x | - <;> rcases y with y | - <;> simp [Compares, number?]

instance {K : Type} [ExactNumber K] : Scalar.OrdersNumbers (Exact K) :=
  .of_rank number? (fun _ => rfl) (fun _ _ => compares_iff) fun _ _ => compares_iff

theorem add_mono {K : Type} [ExactNumber K] {x y x' y' : Exact K} (h : x ≤ y) (h' : x' ≤ y') :
    x + x' ≤ y + y' := by
  rcases x with a | - <;> rcases y with b | - <;> try exact h.elim
  rcases x' with a' | - <;> rcases y' with b' | - <;> try exact h'.elim
  exact add_le_add (show a ≤ b from h) (show a' ≤ b' from h')

end Exact

namespace Double

open Float.Model (UnpackedFloat)

theorem compare_neg (a b : Int) : compare (-a) (-b) = (compare a b).swap := by
  rcases lt_trichotomy a b with h | rfl | h
  · rw [compare_lt_iff_lt.2 h, compare_gt_iff_gt.2 (neg_lt_neg h)]
    rfl
  · simp
  · rw [compare_gt_iff_gt.2 h, compare_lt_iff_lt.2 (neg_lt_neg h)]
    rfl

theorem compare_natCast (m n : Nat) : compare (m : Int) n = compare m n := by
  rcases lt_trichotomy m n with h | rfl | h
  · rw [compare_lt_iff_lt.2 h, compare_lt_iff_lt.2 (Int.ofNat_lt.2 h)]
  · simp
  · rw [compare_gt_iff_gt.2 h, compare_gt_iff_gt.2 (Int.ofNat_lt.2 h)]

/-- The place of a double among all of them: its kind, and for a finite one the exponent and then
the significand, turned round where it is negative. Both zeros have one place. -/
def rank : UnpackedFloat → Option (Int ×ₗ Int ×ₗ Int)
  | .notANumber => none
  | .infinity .negative => some (toLex (-2, toLex (0, 0)))
  | .finite .negative m e _ => some (toLex (-1, toLex (-e, -m)))
  | .zero _ => some (toLex (0, toLex (0, 0)))
  | .finite .positive m e _ => some (toLex (1, toLex (e, m)))
  | .infinity .positive => some (toLex (2, toLex (0, 0)))

theorem compare_eq_rank (x y : UnpackedFloat) :
    x.compare y = (rank x).bind fun a => (rank y).map (compare a) := by
  rcases x with (s | s) | _ | s | ⟨s | s, m, e, h⟩ <;>
    rcases y with (s' | s') | _ | s' | ⟨s' | s', m', e', h'⟩
  all_goals
    dsimp only [UnpackedFloat.compare, rank, Option.bind_some, Option.map_some, Option.bind_none,
      Option.map_none]
    try simp only [Prod.Lex.compare_def, compareLex, compareOn, ofLex_toLex, compare_neg,
      compare_natCast, Ordering.swap_then]
  all_goals rfl

theorem lt_iff_rank (x y : UnpackedFloat) :
    x.lt y = true ↔ ∃ a, rank x = some a ∧ ∃ b, rank y = some b ∧ a < b := by
  unfold UnpackedFloat.lt
  rw [compare_eq_rank]
  cases rank x <;> cases rank y <;> simp [compare_lt_iff_lt]

theorem le_iff_rank (x y : UnpackedFloat) :
    x.le y = true ↔ ∃ a, rank x = some a ∧ ∃ b, rank y = some b ∧ a ≤ b := by
  unfold UnpackedFloat.le
  rw [compare_eq_rank]
  cases rank x <;> cases rank y <;> simp [Ordering.isLE_iff_ne_gt, compare_le_iff_le]

theorem isNaN_eq_rank (x : UnpackedFloat) : x.isNaN = (rank x).isNone := by
  rcases x with (s | s) | _ | s | ⟨s | s, m, e, h⟩ <;> rfl

instance : Scalar.OrdersNumbers Float :=
  .of_rank (fun x => rank x.toModel.unpack) (fun x => isNaN_eq_rank x.toModel.unpack)
    (fun _ _ => decide_eq_true_iff.trans (le_iff_rank _ _))
    fun _ _ => decide_eq_true_iff.trans (lt_iff_rank _ _)

end Double
end Infill
