import Mathlib.Algebra.BigOperators.Fin
import Mathlib.Data.Matrix.Mul
import Mathlib.Tactic.FieldSimp
import Infill.Linear.Cholesky
import Infill.Proofs.Scalar.Exact

/-! Systems with a symmetric positive definite matrix, in exact arithmetic with true roots. Such a
matrix has a positive corner, and what the first column of the factor leaves of the rest is positive
definite again: so the factor exists, its product with its transpose is the matrix, and elimination
and substitution solve the system. -/

namespace Infill

open Matrix

class TrueRoot (K : Type) [ExactNumber K] : Prop where
  sqrt_nonneg : ∀ x : K, 0 ≤ ExactNumber.sqrt x
  mul_self_sqrt : ∀ {x : K}, 0 ≤ x → ExactNumber.sqrt x * ExactNumber.sqrt x = x

theorem TrueRoot.sqrt_pos {K : Type} [ExactNumber K] [TrueRoot K] {x : K} (h : 0 < x) :
    0 < ExactNumber.sqrt x := by
  refine lt_of_le_of_ne (sqrt_nonneg x) fun hzero => ?_
  have hself := mul_self_sqrt h.le
  rw [← hzero, zero_mul] at hself
  exact h.ne hself

theorem zipWith_ofFn {α β γ : Type} {n : ℕ} (f : α → β → γ) (v : Fin n → α) (w : Fin n → β) :
    List.zipWith f (List.ofFn v) (List.ofFn w) = List.ofFn fun i => f (v i) (w i) := by
  induction n with
  | zero => rfl
  | succ n ih => rw [List.ofFn_succ, List.ofFn_succ, List.ofFn_succ, List.zipWith_cons_cons, ih]

namespace Exact

variable {K : Type} {n : ℕ}

def entries (v : Fin n → K) : List (Exact K) := List.ofFn fun i => number (v i)

theorem entries_succ (v : Fin (n + 1) → K) :
    entries v = number (v 0) :: entries fun i => v (Fin.succ i) :=
  List.ofFn_succ

theorem length_entries (v : Fin n → K) : (entries v).length = n := List.length_ofFn

theorem map_entries {f : Exact K → Exact K} {g : K → K} (h : ∀ x, f (number x) = number (g x))
    (v : Fin n → K) : (entries v).map f = entries fun i => g (v i) := by
  rw [entries, List.map_ofFn, entries]
  exact congrArg List.ofFn (funext fun i => h (v i))

theorem zipWith_entries {f : Exact K → Exact K → Exact K} {g : K → K → K}
    (h : ∀ x y, f (number x) (number y) = number (g x y)) (v w : Fin n → K) :
    List.zipWith f (entries v) (entries w) = entries fun i => g (v i) (w i) := by
  rw [entries, entries, zipWith_ofFn, entries]
  exact congrArg List.ofFn (funext fun i => h (v i) (w i))

end Exact

namespace Cholesky

open Exact (number entries entries_succ)

variable {K : Type} [ExactNumber K] {n : ℕ}

def minor (A : Matrix (Fin (n + 1)) (Fin (n + 1)) K) : Matrix (Fin n) (Fin n) K :=
  A.submatrix Fin.succ Fin.succ

/-- The lower triangle of a matrix, by columns. -/
def lower : {n : ℕ} → Matrix (Fin n) (Fin n) K → List (List (Exact K))
  | 0, _ => []
  | _ + 1, A => (entries fun i => A i 0) :: lower (minor A)

theorem reduce_lower (v : Fin n → K) (A : Matrix (Fin n) (Fin n) K) :
    reduce (entries v) (lower A) = lower (A - vecMulVec v v) := by
  induction n with
  | zero => rfl
  | succ n ih =>
    have hcolumn := Exact.zipWith_entries (f := fun a w => a - w * number (v 0))
      (g := fun a w => a - w * v 0) (fun _ _ => rfl) (fun i => A i 0) v
    rw [entries_succ v] at hcolumn ⊢
    rw [lower, reduce, hcolumn, ih]
    rfl

/-- The first column of a factor accounts for the first row and the first column of a matrix. -/
structure Leads (head : K) (below : Fin n → K) (A : Matrix (Fin (n + 1)) (Fin (n + 1)) K) :
    Prop where
  head_pos : 0 < head
  corner : A 0 0 = head * head
  row : (fun i => A 0 (Fin.succ i)) = head • below
  column : (fun i => A (Fin.succ i) 0) = head • below

inductive Factors : {n : ℕ} → Matrix (Fin n) (Fin n) K → List (Pivot (Exact K)) → Prop
  | nil (A : Matrix (Fin 0) (Fin 0) K) : Factors A []
  | cons {n : ℕ} {A : Matrix (Fin (n + 1)) (Fin (n + 1)) K} {head : K} {below : Fin n → K}
      {pivots : List (Pivot (Exact K))} (leads : Leads head below A)
      (rest : Factors (minor A - vecMulVec below below) pivots) :
      Factors A (⟨number head, entries below⟩ :: pivots)

theorem Factors.length {A : Matrix (Fin n) (Fin n) K} {pivots : List (Pivot (Exact K))}
    (h : Factors A pivots) : pivots.length = n := by
  induction h with
  | nil => rfl
  | cons _ _ ih => rw [List.length_cons, ih]

theorem Leads.mulVec {head : K} {below : Fin n → K} {A : Matrix (Fin (n + 1)) (Fin (n + 1)) K}
    (h : Leads head below A) (t : K) (x : Fin n → K) :
    A *ᵥ (Fin.cons t x : Fin (n + 1) → K) =
      Fin.cons (head * (head * t + below ⬝ᵥ x)) ((head * t + below ⬝ᵥ x) • below +
        (minor A - vecMulVec below below) *ᵥ x) := by
  have hrow : (fun i => A 0 (Fin.succ i)) ⬝ᵥ x = head * (below ⬝ᵥ x) := by
    rw [h.row, smul_dotProduct, smul_eq_mul]
  funext i
  cases i using Fin.cases with
  | zero =>
    calc (A *ᵥ (Fin.cons t x : Fin (n + 1) → K)) 0
      _ = A 0 0 * t + (fun i => A 0 (Fin.succ i)) ⬝ᵥ x := by
        simp [Matrix.mulVec, dotProduct, Fin.sum_univ_succ]
      _ = head * (head * t + below ⬝ᵥ x) := by rw [h.corner, hrow]; ring
  | succ i =>
    have hcolumn : A (Fin.succ i) 0 = head * below i := congrFun h.column i
    calc (A *ᵥ (Fin.cons t x : Fin (n + 1) → K)) (Fin.succ i)
      _ = A (Fin.succ i) 0 * t + (minor A *ᵥ x) i := by
        simp [Matrix.mulVec, dotProduct, Fin.sum_univ_succ, minor]
      _ = _ := by
        rw [hcolumn, sub_mulVec, vecMulVec_mulVec]
        simp only [op_smul_eq_smul, Fin.cons_succ, Pi.add_apply, Pi.smul_apply, smul_eq_mul,
          Pi.sub_apply]
        ring

/-- Symmetric, and positive on every vector but zero. -/
structure Definite (A : Matrix (Fin n) (Fin n) K) : Prop where
  symm : ∀ i j, A i j = A j i
  pos : ∀ x, x ≠ 0 → 0 < x ⬝ᵥ (A *ᵥ x)

namespace Definite

variable {A : Matrix (Fin (n + 1)) (Fin (n + 1)) K}

theorem corner_pos (h : Definite A) : 0 < A 0 0 := by
  have hunit : (Fin.cons 1 0 : Fin (n + 1) → K) ≠ 0 := fun heq => by
    simpa using congrFun heq 0
  simpa [Matrix.mulVec, dotProduct, Fin.sum_univ_succ] using h.pos _ hunit

/-- What a first column leaves of the rest is definite again. -/
theorem rest (h : Definite A) {head : K} {below : Fin n → K} (hleads : Leads head below A) :
    Definite (minor A - vecMulVec below below) where
  symm i j := by
    simp only [Matrix.sub_apply, minor, submatrix_apply, vecMulVec_apply, h.symm (Fin.succ i)]
    rw [mul_comm]
  pos x hx := by
    -- With the first unknown chosen like this, the first row contributes nothing.
    let t := -(below ⬝ᵥ x) / head
    have hcons : (Fin.cons t x : Fin (n + 1) → K) ≠ 0 := fun heq => hx <| by
      funext i
      simpa using congrFun heq (Fin.succ i)
    have hzero : head * t + below ⬝ᵥ x = 0 := by
      have hhead := hleads.head_pos.ne'
      simp only [t]
      field_simp
      ring
    have hpos := h.pos _ hcons
    rw [hleads.mulVec, hzero] at hpos
    simpa [dotProduct, Fin.sum_univ_succ] using hpos

theorem leads [TrueRoot K] (h : Definite A) :
    Leads (ExactNumber.sqrt (A 0 0)) (fun i => A (Fin.succ i) 0 / ExactNumber.sqrt (A 0 0)) A := by
  have hroot := TrueRoot.sqrt_pos h.corner_pos
  have hcolumn : (fun i => A (Fin.succ i) 0) = ExactNumber.sqrt (A 0 0) •
      fun i => A (Fin.succ i) 0 / ExactNumber.sqrt (A 0 0) := by
    funext i
    exact (mul_div_cancel₀ _ hroot.ne').symm
  refine ⟨hroot, (TrueRoot.mul_self_sqrt h.corner_pos.le).symm, ?_, hcolumn⟩
  rw [← hcolumn]
  exact funext fun i => h.symm 0 (Fin.succ i)

theorem mulVec_injective {A : Matrix (Fin n) (Fin n) K} (h : Definite A) {x y : Fin n → K}
    (heq : A *ᵥ x = A *ᵥ y) : x = y := by
  by_contra hne
  have hpos := h.pos (x - y) (sub_ne_zero.2 hne)
  rw [mulVec_sub, heq, sub_self, dotProduct_zero] at hpos
  exact hpos.false

end Definite

theorem factor?_lower [TrueRoot K] {A : Matrix (Fin n) (Fin n) K} (h : Definite A) :
    ∃ pivots, factor? (lower A) = some pivots ∧ Factors A pivots := by
  induction n with
  | zero => exact ⟨[], by rw [lower, factor?], .nil A⟩
  | succ n ih =>
    obtain ⟨pivots, hfactor, hpivots⟩ := ih (h.rest h.leads)
    refine ⟨_, ?_, .cons h.leads hpivots⟩
    have hcorner := h.corner_pos
    have hpivot : ((number (A 0 0)) ≤ 0 || !Scalar.isFinite (number (A 0 0))) = false := by
      rw [Bool.or_eq_false_iff]
      exact ⟨decide_eq_false hcorner.not_ge, rfl⟩
    have hroot : Scalar.sqrt (number (A 0 0)) = number (ExactNumber.sqrt (A 0 0)) :=
      if_neg hcorner.le.not_gt
    have hbelow := Exact.map_entries (f := (· / number (ExactNumber.sqrt (A 0 0))))
      (fun x => Exact.number_div (TrueRoot.sqrt_pos hcorner).ne') fun i => A (Fin.succ i) 0
    rw [lower, entries_succ, factor?, hpivot]
    dsimp only
    rw [hroot, hbelow, reduce_lower, hfactor]
    rfl

theorem backSubstitute_entries (y : K) (below solved : Fin n → K) :
    backSubstitute (number y) (entries below) (entries solved) =
      number (y - below ⬝ᵥ solved) := by
  unfold backSubstitute
  induction n generalizing y with
  | zero => simp [entries, dotProduct]
  | succ n ih =>
    rw [entries_succ below, entries_succ solved, List.zip_cons_cons, List.foldl_cons]
    calc ((entries fun i => below (Fin.succ i)).zip (entries fun i => solved (Fin.succ i))).foldl
          (fun acc (v, x) => acc - v * x) (number (y - below 0 * solved 0))
      _ = number (y - below 0 * solved 0 -
            (fun i => below (Fin.succ i)) ⬝ᵥ fun i => solved (Fin.succ i)) := ih _ _ _
      _ = number (y - below ⬝ᵥ solved) := by
        rw [dotProduct, dotProduct, Fin.sum_univ_succ, sub_sub]

/-- Elimination and substitution solve the system. -/
theorem solve_entries {A : Matrix (Fin n) (Fin n) K} {pivots : List (Pivot (Exact K))}
    (h : Factors A pivots) (b : Fin n → K) :
    ∃ x, solve pivots (entries b) = entries x ∧ A *ᵥ x = b := by
  induction h with
  | nil A => exact ⟨0, rfl, Subsingleton.elim _ _⟩
  | @cons n A head below pivots hleads _ ih =>
    have hhead := hleads.head_pos.ne'
    let y := b 0 / head
    have hrest := Exact.zipWith_entries (f := fun b v => b - v * number y)
      (g := fun b v => b - v * y) (fun _ _ => rfl) (fun i => b (Fin.succ i)) below
    obtain ⟨x, hsolve, hx⟩ := ih fun i => b (Fin.succ i) - below i * y
    let t := (y - below ⬝ᵥ x) / head
    have ht : head * t + below ⬝ᵥ x = y := by
      simp only [t]
      field_simp
      ring
    refine ⟨Fin.cons t x, ?_, ?_⟩
    · rw [entries_succ b, solve, Exact.number_div hhead]
      dsimp only
      rw [eliminate, hrest, hsolve, backSubstitute_entries, Exact.number_div hhead]
      exact (entries_succ (Fin.cons t x : Fin (n + 1) → K)).symm
    · rw [hleads.mulVec, ht, hx]
      funext i
      cases i using Fin.cases with
      | zero => exact mul_div_cancel₀ (b 0) hhead
      | succ i =>
        simp only [Fin.cons_succ, Pi.add_apply, Pi.smul_apply, smul_eq_mul]
        ring

end Cholesky
end Infill
