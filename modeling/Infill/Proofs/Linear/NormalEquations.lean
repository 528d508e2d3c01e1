import Mathlib.Analysis.Real.Sqrt
import Mathlib.Data.Matrix.Basic
import Mathlib.LinearAlgebra.Matrix.Notation
import Mathlib.Algebra.Order.Archimedean.Real.Basic
import Infill.Proofs.Linear.Definite
import Infill.Proofs.Linear.Triangle

/-! Least squares in exact arithmetic with true roots. The triangle that is built row by row is that of
the products of the columns of the design; with the ridge on its diagonal the matrix is positive
definite, whatever the regressors are. So a regression with enough rows never fails, and each of its
fits is the one solution of the ridged normal equations. -/

namespace Infill.LeastSquares

open Matrix
open Exact (number entries entries_succ)
open Cholesky (lower minor Definite)

variable {K : Type} [ExactNumber K] {n k : ℕ}

section Triangles

theorem products_entries (v : Fin n → K) : products (entries v) = lower (vecMulVec v v) := by
  induction n with
  | zero => rfl
  | succ n ih =>
    have hcolumn := Exact.map_entries (f := (number (v 0) * ·)) (g := fun x => x * v 0)
      (fun x => congrArg number (mul_comm _ _)) v
    rw [entries_succ v] at hcolumn ⊢
    rw [products, hcolumn, ih]
    rfl

theorem zeroTriangle_eq (n : ℕ) : zeroTriangle n = lower (0 : Matrix (Fin n) (Fin n) K) := by
  induction n with
  | zero => rfl
  | succ n ih =>
    rw [zeroTriangle, ih, lower]
    exact congrArg (· :: _) (List.ofFn_const _ _).symm

theorem addTriangles_lower (A B : Matrix (Fin n) (Fin n) K) :
    addTriangles (lower A) (lower B) = lower (A + B) := by
  induction n with
  | zero => rfl
  | succ n ih =>
    have hcolumn := Exact.zipWith_entries (f := (· + ·)) (g := (· + ·)) (fun _ _ => rfl)
      (fun i => A i 0) fun i => B i 0
    have hrest := ih (minor A) (minor B)
    unfold addTriangles at hrest ⊢
    rw [lower, lower, List.zipWith_cons_cons, hcolumn, hrest]
    rfl

theorem gram_entries (vs : List (Fin n → K)) :
    gram n (vs.map entries) = lower (vs.map fun v => vecMulVec v v).sum := by
  have key : ∀ A : Matrix (Fin n) (Fin n) K,
      (vs.map entries).foldl (fun acc row => addTriangles acc (products row)) (lower A) =
        lower (A + (vs.map fun v => vecMulVec v v).sum) := by
    induction vs with
    | nil => simp
    | cons v vs ih =>
      intro A
      rw [List.map_cons, List.foldl_cons, products_entries, addTriangles_lower, ih, List.map_cons,
        List.sum_cons, add_assoc]
  rw [gram, zeroTriangle_eq, key, zero_add]

theorem moments_entries (vs : List (Fin n → K)) (ts : List K) :
    moments n (vs.map entries) (ts.map number) =
      entries (List.zipWith (fun v t => t • v) vs ts).sum := by
  have key : ∀ w : Fin n → K, ((vs.map entries).zip (ts.map number)).foldl
      (fun acc (row, t) => List.zipWith (· + ·) acc (row.map (· * t))) (entries w) =
        entries (w + (List.zipWith (fun v t => t • v) vs ts).sum) := by
    induction vs generalizing ts with
    | nil => simp
    | cons v vs ih =>
      cases ts with
      | nil => simp
      | cons t ts =>
        intro w
        have hterm : (entries v).map (· * number t) = entries (t • v) :=
          Exact.map_entries (fun x => congrArg number (mul_comm x t)) v
        have hsum : List.zipWith (· + ·) (entries w) (entries (t • v)) = entries (w + t • v) :=
          Exact.zipWith_entries (fun _ _ => rfl) w (t • v)
        rw [List.map_cons, List.map_cons, List.zip_cons_cons, List.foldl_cons]
        dsimp only
        rw [hterm, hsum, ih, List.zipWith_cons_cons, List.sum_cons, add_assoc]
  have hzero : List.replicate n 0 = entries (0 : Fin n → K) := (List.ofFn_const _ _).symm
  rw [moments, hzero, key, zero_add]

theorem ridge_number (d : K) : ridge (number d) = number (1 / 10 ^ 8 * max 1 d) := by
  have hmax : Scalar.atLeast 1 (number d) = number (max 1 d) := by
    unfold Scalar.atLeast
    split_ifs with h
    · rw [max_eq_right (le_of_lt h)]
    · rw [max_eq_left (le_of_not_gt h)]
      rfl
  have hshare : (1 : Exact K) / ((100000000 : Nat) : Exact K) = number (1 / 10 ^ 8) := by
    rw [Exact.one_div_natCast (by norm_num)]
    norm_num
  rw [ridge, hmax, hshare]
  rfl

theorem minor_add_diagonal (A : Matrix (Fin (n + 1)) (Fin (n + 1)) K) (d : Fin (n + 1) → K) :
    minor (A + diagonal d) = minor A + diagonal fun i => d (Fin.succ i) := by
  rw [minor, submatrix_add, Pi.add_apply, Pi.add_apply,
    submatrix_diagonal d _ (Fin.succ_injective n)]
  rfl

theorem addRidge_lower (A : Matrix (Fin n) (Fin n) K) :
    addRidge (lower A) = lower (A + diagonal fun i => 1 / 10 ^ 8 * max 1 (A i i)) := by
  induction n with
  | zero => rfl
  | succ n ih =>
    have hcorner : number (A 0 0) + ridge (number (A 0 0)) =
        number (A 0 0 + 1 / 10 ^ 8 * max 1 (A 0 0)) := by rw [ridge_number, Exact.number_add]
    have hrest := ih (minor A)
    unfold addRidge at hrest ⊢
    rw [lower, entries_succ, List.map_cons, hrest, lower, entries_succ, minor_add_diagonal]
    dsimp only
    rw [hcorner]
    simp [minor]

end Triangles

/-- The regressors of each row behind a leading 1. -/
def design (x : Matrix (Fin n) (Fin k) K) : Matrix (Fin n) (Fin (k + 1)) K :=
  .of fun i => Fin.cons 1 (x.row i)

/-- The products of the columns of a design, with the ridge on their diagonal. -/
def ridged (X : Matrix (Fin n) (Fin k) K) : Matrix (Fin k) (Fin k) K :=
  Xᵀ * X + diagonal fun i => 1 / 10 ^ 8 * max 1 ((Xᵀ * X) i i)

theorem ridged_definite (X : Matrix (Fin n) (Fin k) K) : Definite (ridged X) where
  symm i j := by
    have hsymm : (ridged X)ᵀ = ridged X := by
      rw [ridged, transpose_add, transpose_mul, transpose_transpose, diagonal_transpose]
    exact congrFun (congrFun hsymm j) i
  pos β hβ := by
    obtain ⟨i, hi⟩ := Function.ne_iff.1 hβ
    let d := fun i => 1 / 10 ^ 8 * max 1 ((Xᵀ * X) i i)
    have hd : ∀ i, 0 < d i := fun i =>
      mul_pos (by positivity) (zero_lt_one.trans_le (le_max_left _ _))
    have hproducts : β ⬝ᵥ ((Xᵀ * X) *ᵥ β) = (X *ᵥ β) ⬝ᵥ (X *ᵥ β) := by
      rw [← mulVec_mulVec, dotProduct_mulVec, vecMul_transpose]
    have hsquares : 0 ≤ (X *ᵥ β) ⬝ᵥ (X *ᵥ β) :=
      Finset.sum_nonneg fun _ _ => mul_self_nonneg _
    have hterm : ∀ j, β j * (diagonal d *ᵥ β) j = d j * (β j * β j) := fun j => by
      rw [mulVec_diagonal]
      ring
    have hridge : 0 < β ⬝ᵥ (diagonal d *ᵥ β) := by
      refine Finset.sum_pos' (fun j _ => ?_) ⟨i, Finset.mem_univ i, ?_⟩
      · rw [hterm]
        exact mul_nonneg (hd j).le (mul_self_nonneg _)
      · rw [hterm]
        exact mul_pos (hd i) (mul_self_pos.2 hi)
    rw [ridged, add_mulVec, dotProduct_add, hproducts]
    exact add_pos_of_nonneg_of_pos hsquares hridge

def listed (x : Matrix (Fin n) (Fin k) K) : List (List (Exact K)) :=
  List.ofFn fun i => entries (x.row i)

/-- A fit as the vector of its parameters, the intercept first. -/
def ofVector (β : Fin (k + 1) → K) : Fit (Exact K) :=
  ⟨number (vecHead β), entries (vecTail β)⟩

theorem listed_design (x : Matrix (Fin n) (Fin k) K) :
    (listed x).map (1 :: ·) = (List.ofFn (design x).row).map entries := by
  rw [listed, List.map_ofFn, List.map_ofFn]
  refine congrArg List.ofFn (funext fun i => ?_)
  exact (entries_succ ((design x).row i)).symm

theorem gram_listed (x : Matrix (Fin n) (Fin k) K) :
    gram (k + 1) ((listed x).map (1 :: ·)) = lower ((design x)ᵀ * design x) := by
  rw [listed_design, gram_entries, List.map_ofFn, List.sum_ofFn]
  congr 1
  ext i j
  rw [Matrix.sum_apply, mul_apply]
  rfl

theorem moments_listed (x : Matrix (Fin n) (Fin k) K) (y : Fin n → K) :
    moments (k + 1) ((listed x).map (1 :: ·)) (entries y) = entries ((design x)ᵀ *ᵥ y) := by
  have hy : entries y = (List.ofFn y).map number := (List.map_ofFn ..).symm
  rw [listed_design, hy, moments_entries, zipWith_ofFn, List.sum_ofFn]
  congr 1
  ext i
  simp [mulVec, dotProduct, Finset.sum_apply, mul_comm]

omit [ExactNumber K] in
theorem length_of_mem_listed {x : Matrix (Fin n) (Fin k) K} {row : List (Exact K)}
    (h : row ∈ listed x) : row.length = k := by
  obtain ⟨i, rfl⟩ := List.mem_ofFn.1 h
  exact Exact.length_entries _

omit [ExactNumber K] in
theorem width_listed (h : k + 1 ≤ n) (x : Matrix (Fin n) (Fin k) K) :
    ((listed x).head?.getD []).length = k := by
  cases hrows : listed x with
  | nil =>
    have hlength := congrArg List.length hrows
    rw [listed, List.length_ofFn, List.length_nil] at hlength
    omega
  | cons row rest => exact length_of_mem_listed (hrows ▸ List.mem_cons_self)

omit [ExactNumber K] in
theorem checkShape_listed (h : k + 1 ≤ n) (x : Matrix (Fin n) (Fin k) K)
    (ys : List (Fin n → K)) : checkShape (listed x) (ys.map entries) = .ok () := by
  have hrows : (listed x).length = n := List.length_ofFn
  refine checkShape_ok_iff.2 ⟨?_, fun row hrow => ?_, fun y hy => ?_⟩
  · rw [width_listed h, hrows]
    exact h
  · rw [width_listed h, length_of_mem_listed hrow]
  · obtain ⟨y, -, rfl⟩ := List.mem_map.1 hy
    rw [hrows, Exact.length_entries]

/-- The factor of the normal equations solves them for every target. -/
theorem solveTarget_entries {x : Matrix (Fin n) (Fin k) K}
    {factor : List (Cholesky.Pivot (Exact K))} (h : Cholesky.Factors (ridged (design x)) factor)
    (y : Fin n → K) :
    ∃ β, solveTarget factor ((listed x).map (1 :: ·)) (entries y) = .ok (ofVector β) ∧
      ridged (design x) *ᵥ β = (design x)ᵀ *ᵥ y := by
  obtain ⟨β, hsolve, hβ⟩ := Cholesky.solve_entries h ((design x)ᵀ *ᵥ y)
  have hfinite : (entries β).all Scalar.isFinite = true := by
    rw [List.all_eq_true]
    intro c hc
    obtain ⟨i, rfl⟩ := List.mem_ofFn.1 hc
    rfl
  refine ⟨β, ?_, hβ⟩
  unfold solveTarget
  rw [h.length, moments_listed, hsolve, if_pos hfinite, entries_succ]
  rfl

/-- A regression with enough rows has one fit for each target, the one solution of its normal
equations, whatever the other targets are. -/
theorem fitAll_solves [TrueRoot K] (h : k + 1 ≤ n) (x : Matrix (Fin n) (Fin k) K) :
    ∃ β : (Fin n → K) → Fin (k + 1) → K,
      (∀ ys : List (Fin n → K),
        fitAll (listed x) (ys.map entries) = .ok (ys.map fun y => ofVector (β y))) ∧
      ∀ y, (∀ γ, ridged (design x) *ᵥ γ = (design x)ᵀ *ᵥ y ↔ γ = β y) ∧
        fit (listed x) (entries y) = .ok (ofVector (β y)) := by
  have hdefinite := ridged_definite (design x)
  obtain ⟨factor, hfactor, hfactors⟩ := Cholesky.factor?_lower hdefinite
  choose β hfit hsystem using solveTarget_entries hfactors
  have hall : ∀ ys : List (Fin n → K),
      fitAll (listed x) (ys.map entries) = .ok (ys.map fun y => ofVector (β y)) := by
    intro ys
    refine fitAll_ok_iff.2 ⟨checkShape_listed h x ys, factor, ?_, mapM_ok_iff.2 ?_⟩
    · rw [width_listed h, gram_listed, addRidge_lower]
      exact hfactor
    · rw [List.forall₂_map_left_iff, List.forall₂_map_right_iff, List.forall₂_same]
      exact fun y _ => hfit y
  refine ⟨β, hall, fun y => ⟨fun γ => ⟨fun hγ => ?_, ?_⟩, ?_⟩⟩
  · exact hdefinite.mulVec_injective (hγ.trans (hsystem y).symm)
  · rintro rfl
    exact hsystem y
  · obtain ⟨f, hf, heq⟩ := fitAll_single_iff.1 (hall [y])
    obtain rfl := (List.cons.inj heq).1
    exact hf

noncomputable instance : ExactNumber ℝ where
  sqrt := Real.sqrt
  text x := toString ⌊x⌋

instance : TrueRoot ℝ where
  sqrt_nonneg := Real.sqrt_nonneg
  mul_self_sqrt := Real.mul_self_sqrt

/-- Two regressors, one a multiple of the other, and both targets at once: without the ridge neither
of them would have one solution. -/
theorem collinear_solves :
    ∃ β : (Fin 4 → ℝ) → Fin 3 → ℝ,
      (∀ ys : List (Fin 4 → ℝ),
        fitAll (listed !![1, 2; 2, 4; 3, 6; 5, 10]) (ys.map entries) =
          .ok (ys.map fun y => ofVector (β y))) ∧
      ∀ y, (∀ γ, ridged (design !![1, 2; 2, 4; 3, 6; 5, 10]) *ᵥ γ =
          (design !![1, 2; 2, 4; 3, 6; 5, 10])ᵀ *ᵥ y ↔ γ = β y) ∧
        fit (listed !![1, 2; 2, 4; 3, 6; 5, 10]) (entries y) = .ok (ofVector (β y)) :=
  fitAll_solves (by decide) _

end Infill.LeastSquares
