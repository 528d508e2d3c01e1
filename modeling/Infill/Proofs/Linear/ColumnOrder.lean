import Mathlib.Logic.Equiv.Fin.Basic
import Mathlib.Logic.Equiv.Option
import Infill.Proofs.Linear.NormalEquations
import Infill.Proofs.Linear.Numbers
import Infill.Proofs.Pick

/-! Regressors in another order. Rearranging the columns of a design rearranges the rows and the columns
of its ridged normal equations. They have one solution, so that the coefficients follow their
regressors: the intercept, and what a fit predicts of a row, are as before. -/

namespace Infill

open Exact (number entries)

section Positions

/-- An order of all positions is a permutation of them. -/
theorem Arranges.exists_perm {n : Nat} {order : List Nat} (h : Arranges n order) :
    ∃ e : Equiv.Perm (Fin n), order = List.ofFn fun i => (e i : Nat) := by
  obtain rfl := h.length
  have hinjective : Function.Injective fun i : Fin order.length =>
      (⟨order[i], h.within _ (List.getElem_mem _)⟩ : Fin order.length) := by
    intro i j hij
    have hnodup : order.Nodup := h.nodup_iff.2 List.nodup_range
    exact Fin.ext (hnodup.getElem_inj_iff.1 (congrArg Fin.val hij))
  refine ⟨Equiv.ofBijective _ (Finite.injective_iff_bijective.1 hinjective), ?_⟩
  exact (List.ofFn_getElem ..).symm

variable {β : Type} {n : Nat} (e : Equiv.Perm (Fin n))

theorem pick_ofFn (v : Fin n → β) :
    pick (List.ofFn fun i => (e i : Nat)) (List.ofFn v) = List.ofFn (v ∘ e) := by
  have hentry : (fun i : Nat => (List.ofFn v)[i]?) ∘ (fun i => (e i : Nat)) = some ∘ (v ∘ e) :=
    funext fun i => by simp
  rw [pick, List.ofFn_eq_map (f := fun i => (e i : Nat)), List.filterMap_map, hentry,
    List.filterMap_eq_map, List.ofFn_eq_map]

theorem pick_entries (v : Fin n → β) :
    pick (List.ofFn fun i => (e i : Nat)) (entries v) = entries (v ∘ e) :=
  pick_ofFn e fun i => number (v i)

end Positions

namespace LeastSquares

open Matrix
open Exact (NumbersOf)

section Predictions

variable {α : Type} [Scalar α]

def Fit.arranged (order : List Nat) (f : Fit α) : Fit α := ⟨f.intercept, pick order f.coefficients⟩

theorem Fit.predict_arranged [Scalar.SumsUnordered α] {order : List Nat} {f : Fit α} {row : List α}
    (horder : Arranges row.length order) (hlength : f.coefficients.length = row.length) :
    (f.arranged order).predict (pick order row) = f.predict row := by
  have hproducts : Arranges (List.zipWith (· * ·) f.coefficients row).length order := by
    rwa [List.length_zipWith, hlength, Nat.min_self]
  rw [predict, predict, arranged, Scalar.dot, Scalar.dot]
  dsimp only
  rw [← pick_zipWith _ hlength (hlength ▸ horder.within),
    Scalar.SumsUnordered.sum_perm hproducts.pick_perm]

end Predictions

variable {K : Type} {n k : ℕ} (e : Equiv.Perm (Fin k))

/-- A permutation of the regressors, behind a leading 1 that keeps its place. -/
def behindOne : Equiv.Perm (Fin (k + 1)) :=
  (finSuccEquiv k).trans (e.optionCongr.trans (finSuccEquiv k).symm)

theorem behindOne_zero : behindOne e 0 = 0 := by simp [behindOne]

theorem behindOne_succ (i : Fin k) : behindOne e i.succ = (e i).succ := by simp [behindOne]

theorem ofVector_behindOne (β : Fin (k + 1) → K) :
    ofVector (β ∘ behindOne e) = (ofVector β).arranged (List.ofFn fun i => (e i : Nat)) := by
  have hhead : vecHead (β ∘ behindOne e) = vecHead β := congrArg β (behindOne_zero e)
  have htail : vecTail (β ∘ behindOne e) = vecTail β ∘ e :=
    funext fun i => congrArg β (behindOne_succ e i)
  rw [ofVector, hhead, htail, Fit.arranged, ofVector, pick_entries]

theorem listed_submatrix (x : Matrix (Fin n) (Fin k) K) :
    listed (x.submatrix id e) = (listed x).map (pick (List.ofFn fun i => (e i : Nat))) := by
  rw [listed, listed, List.map_ofFn]
  exact congrArg List.ofFn (funext fun i => (pick_entries e (x.row i)).symm)

variable [ExactNumber K]

theorem design_submatrix (x : Matrix (Fin n) (Fin k) K) :
    design (x.submatrix id e) = (design x).submatrix id (behindOne e) := by
  ext i j
  cases j using Fin.cases with
  | zero => simp [design, behindOne_zero]
  | succ j => simp [design, behindOne_succ]

theorem ridged_submatrix (X : Matrix (Fin n) (Fin k) K) :
    ridged (X.submatrix id e) = (ridged X).submatrix e e := by
  have hproducts : (X.submatrix id e)ᵀ * X.submatrix id e = (Xᵀ * X).submatrix e e := by
    rw [transpose_submatrix, submatrix_mul _ _ e id e Function.bijective_id]
  rw [ridged, ridged, hproducts, submatrix_add, Pi.add_apply, Pi.add_apply,
    submatrix_diagonal_equiv]
  rfl

/-- The parameters of a regression follow its regressors. -/
theorem fitAll_submatrix [TrueRoot K] (h : k + 1 ≤ n) (x : Matrix (Fin n) (Fin k) K) :
    ∃ β : (Fin n → K) → Fin (k + 1) → K, ∀ ys : List (Fin n → K),
      fitAll (listed x) (ys.map entries) = .ok (ys.map fun y => ofVector (β y)) ∧
      fitAll (listed (x.submatrix id e)) (ys.map entries) =
        .ok (ys.map fun y => ofVector (β y ∘ behindOne e)) := by
  obtain ⟨β, hall, hβ⟩ := fitAll_solves h x
  obtain ⟨γ, hall', hγ⟩ := fitAll_solves h (x.submatrix id e)
  -- The rearranged parameters solve the rearranged system, which has one solution.
  have hfollow : γ = fun y => β y ∘ behindOne e := funext fun y => by
    have hsystem := ((hβ y).1 (β y)).2 rfl
    have hmoments : ((design x).submatrix id (behindOne e))ᵀ *ᵥ y =
        ((design x)ᵀ *ᵥ y) ∘ behindOne e := rfl
    refine (((hγ y).1 _).1 ?_).symm
    rw [design_submatrix, ridged_submatrix, submatrix_mulVec_equiv, hmoments, ← hsystem,
      Function.comp_assoc, Equiv.self_comp_symm, Function.comp_id]
  exact ⟨β, fun ys => ⟨hall ys, by rw [hall' ys, hfollow]⟩⟩

section Lists

variable {rows targets : List (List (Exact K))} {σ τ : List Nat} {fits : List (Fit (Exact K))}

theorem exists_listed (hlength : rows.length = n) (h : ∀ row ∈ rows, NumbersOf k row) :
    ∃ x : Matrix (Fin n) (Fin k) K, rows = listed x := by
  subst hlength
  choose v hv using fun i : Fin rows.length => (h _ (List.getElem_mem i.isLt)).exists_entries
  have hall : rows = List.ofFn fun i : Fin rows.length => rows[i] := (List.ofFn_getElem ..).symm
  exact ⟨.of v, hall.trans (congrArg List.ofFn (funext hv))⟩

theorem exists_vectors (h : ∀ y ∈ targets, NumbersOf n y) :
    ∃ ys : List (Fin n → K), targets = ys.map entries := by
  induction targets with
  | nil => exact ⟨[], rfl⟩
  | cons y targets ih =>
    obtain ⟨v, rfl⟩ := (h y List.mem_cons_self).exists_entries
    obtain ⟨vs, rfl⟩ := ih fun z hz => h z (List.mem_cons_of_mem _ hz)
    exact ⟨v :: vs, rfl⟩

/-- A regression of too few rows fails for their number and their width. -/
theorem fitAll_few (hrows : ∀ row ∈ rows, row.length = k) (hfew : rows.length < k + 1) :
    fitAll rows targets =
      .error (.insufficientData ((rows.head?.getD []).length + 1) rows.length) := by
  have hshort : rows.length < (rows.head?.getD []).length + 1 := by
    cases rows with
    | nil => exact Nat.one_pos
    | cons row rest =>
      have hrow : row.length = k := hrows row List.mem_cons_self
      rwa [List.head?_cons, Option.getD_some, hrow]
  unfold fitAll checkShape
  dsimp only
  rw [if_pos hshort]
  rfl

/-- A regression on rearranged regressors, with the targets read in any order: it fails as the
regression fails, and else its fits are the rearranged ones. -/
theorem fitAll_arranged [TrueRoot K] (hσ : Arranges k σ) (τ : List Nat)
    (hrows : ∀ row ∈ rows, NumbersOf k row) (htargets : ∀ y ∈ targets, NumbersOf rows.length y) :
    fitAll (rows.map (pick σ)) (pick τ targets) =
      (fitAll rows targets).map fun fits => pick τ (fits.map (Fit.arranged σ)) := by
  have hlength : ∀ row ∈ rows, (pick σ row).length = row.length := fun row hrow =>
    Arranges.length_pick ((hrows row hrow).1 ▸ hσ)
  by_cases hfew : rows.length < k + 1
  · have hwidth : ((rows.map (pick σ)).head?.getD []).length = (rows.head?.getD []).length := by
      cases rows with
      | nil => rfl
      | cons row rest => exact hlength row List.mem_cons_self
    have harranged : ∀ row ∈ rows.map (pick σ), row.length = k := by
      rw [List.forall_mem_map]
      exact fun row hrow => (hlength row hrow).trans (hrows row hrow).1
    rw [fitAll_few (fun row hrow => (hrows row hrow).1) hfew,
      fitAll_few harranged (by rwa [List.length_map]), hwidth, List.length_map]
    rfl
  · obtain ⟨n, hn⟩ : ∃ n, rows.length = n := ⟨_, rfl⟩
    rw [hn] at hfew htargets
    obtain ⟨e, rfl⟩ := hσ.exists_perm
    obtain ⟨x, rfl⟩ := exists_listed hn hrows
    obtain ⟨ys, rfl⟩ := exists_vectors htargets
    obtain ⟨β, hβ⟩ := fitAll_submatrix e (Nat.le_of_not_lt hfew) x
    rw [← listed_submatrix, pick_map, (hβ _).1, (hβ _).2, Except.map, List.map_map, pick_map]
    simp only [Function.comp_def, ← ofVector_behindOne]

theorem fit_arranged [TrueRoot K] (hσ : Arranges k σ) (hrows : ∀ row ∈ rows, NumbersOf k row)
    {y : List (Exact K)} (hy : NumbersOf rows.length y) :
    fit (rows.map (pick σ)) y = (fit rows y).map (Fit.arranged σ) := by
  have htargets : ∀ z ∈ [y], NumbersOf rows.length z := by simpa using hy
  have hall : fitAll (rows.map (pick σ)) [y] = _ := fitAll_arranged hσ [0] hrows htargets
  cases hfits : fitAll rows [y] with
  | error e =>
    rw [hfits] at hall
    unfold fit
    rw [hall, hfits]
    rfl
  | ok fits =>
    obtain ⟨f, hf, rfl⟩ := fitAll_single_iff.1 hfits
    rw [hfits] at hall
    obtain ⟨g, hg, heq⟩ := fitAll_single_iff.1 hall
    obtain rfl : f.arranged σ = g := (List.cons.inj heq).1
    rw [hg, hf]
    rfl

/-- A regression of enough numbers has one fit for every target, and all parts of the fits are
numbers. -/
theorem exists_fitAll [TrueRoot K] (hrows : ∀ row ∈ rows, NumbersOf k row)
    (htargets : ∀ y ∈ targets, NumbersOf rows.length y) (henough : k < rows.length) :
    ∃ fits, fitAll rows targets = .ok fits ∧ fits.length = targets.length ∧
      ∀ f ∈ fits, f.Numeric k := by
  obtain ⟨n, hn⟩ : ∃ n, rows.length = n := ⟨_, rfl⟩
  rw [hn] at henough htargets
  obtain ⟨x, rfl⟩ := exists_listed hn hrows
  obtain ⟨ys, rfl⟩ := exists_vectors htargets
  obtain ⟨β, hall, -⟩ := fitAll_solves henough x
  refine ⟨_, hall ys, by rw [List.length_map, List.length_map], ?_⟩
  rw [List.forall_mem_map]
  exact fun y _ => ⟨rfl, Exact.numbersOf_entries _⟩

theorem fitAll_numeric [TrueRoot K] (hrows : ∀ row ∈ rows, NumbersOf k row)
    (htargets : ∀ y ∈ targets, NumbersOf rows.length y) (h : fitAll rows targets = .ok fits) :
    fits.length = targets.length ∧ ∀ f ∈ fits, f.Numeric k := by
  have henough : k < rows.length := by
    by_contra hfew
    rw [fitAll_few (fun row hrow => (hrows row hrow).1) (by omega)] at h
    cases h
  obtain ⟨fits', h', hfits⟩ := exists_fitAll hrows htargets henough
  obtain rfl := Except.ok.inj (h'.symm.trans h)
  exact hfits

end Lists

end LeastSquares
end Infill
