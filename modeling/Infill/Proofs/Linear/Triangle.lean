import Infill.Linear.LeastSquares
import Infill.Proofs.Success

/-! The shape of the normal equations. Rows of one width make a triangle of that size, its factor
tapers in the same way, and a solution has one entry for each column: a fit has one coefficient for
each regressor. -/

namespace Infill

variable {α : Type}

/-- The columns of a lower triangle, each from the diagonal down. -/
inductive Triangle : Nat → List (List α) → Prop
  | nil : Triangle 0 []
  | cons {n : Nat} {column : List α} {columns : List (List α)} (height : column.length = n + 1)
      (rest : Triangle n columns) : Triangle (n + 1) (column :: columns)

namespace Cholesky

inductive Tapers : Nat → List (Pivot α) → Prop
  | nil : Tapers 0 []
  | cons {n : Nat} {pivot : Pivot α} {pivots : List (Pivot α)} (height : pivot.below.length = n)
      (rest : Tapers n pivots) : Tapers (n + 1) (pivot :: pivots)

variable [Scalar α]

omit [Scalar α] in
theorem Tapers.length {n : Nat} {pivots : List (Pivot α)} (h : Tapers n pivots) :
    pivots.length = n := by
  induction h with
  | nil => rfl
  | cons _ _ ih => rw [List.length_cons, ih]

theorem reduce_triangle {n : Nat} {vs : List α} {columns : List (List α)} (hvs : vs.length = n)
    (h : Triangle n columns) : Triangle n (reduce vs columns) := by
  induction h generalizing vs with
  | nil =>
    obtain rfl := List.length_eq_zero_iff.1 hvs
    exact .nil
  | @cons n column columns height _ ih =>
    obtain ⟨v, vs, rfl⟩ := List.exists_cons_of_length_eq_add_one hvs
    refine .cons ?_ (ih (by simpa using hvs))
    rw [List.length_zipWith, height, hvs, Nat.min_self]

theorem factor?_tapers {n : Nat} {columns : List (List α)} {pivots : List (Pivot α)}
    (h : Triangle n columns) (hf : factor? columns = some pivots) : Tapers n pivots := by
  -- The rest of the factor belongs to the reduced columns, so the induction is on the size.
  induction n generalizing columns pivots with
  | zero =>
    cases h
    rw [factor?] at hf
    obtain rfl := Option.some.inj hf
    exact .nil
  | succ n ih =>
    cases h with
    | @cons _ column columns height hrest =>
    obtain ⟨a, as, rfl⟩ := List.exists_cons_of_length_eq_add_one height
    rw [factor?] at hf
    split_ifs at hf
    obtain ⟨rest, hfactor, rfl⟩ := Option.map_eq_some_iff.1 hf
    have has : (as.map (· / Scalar.sqrt a)).length = n := by simpa using height
    exact .cons has (ih (reduce_triangle has hrest) hfactor)

theorem length_solve {n : Nat} {pivots : List (Pivot α)} (h : Tapers n pivots) {b : List α}
    (hb : b.length = n) : (solve pivots b).length = n := by
  induction h generalizing b with
  | nil => simp [solve]
  | @cons n pivot pivots height _ ih =>
    obtain ⟨x, xs, rfl⟩ := List.exists_cons_of_length_eq_add_one hb
    have hxs : (eliminate (x / pivot.head) pivot.below xs).length = n := by
      rw [eliminate, List.length_zipWith, height, Nat.succ.inj hb, Nat.min_self]
    rw [solve, List.length_cons, ih hxs]

end Cholesky

namespace LeastSquares

variable [Scalar α]

theorem products_triangle (row : List α) : Triangle row.length (products row) := by
  induction row with
  | nil => exact .nil
  | cons x xs ih => exact .cons (by simp) ih

theorem zeroTriangle_triangle (n : Nat) : Triangle n (zeroTriangle n : List (List α)) := by
  induction n with
  | zero => exact .nil
  | succ n ih => exact .cons List.length_replicate ih

theorem addTriangles_triangle {n : Nat} {a b : List (List α)} (ha : Triangle n a)
    (hb : Triangle n b) : Triangle n (addTriangles a b) := by
  induction ha generalizing b with
  | nil => exact .nil
  | cons height _ ih =>
    cases hb with
    | cons height' hb => exact .cons (by simp [height, height']) (ih hb)

theorem gram_triangle {width : Nat} {rows : List (List α)} (h : ∀ row ∈ rows, row.length = width) :
    Triangle width (gram width rows) := by
  unfold gram
  refine List.foldlRecOn rows _ (zeroTriangle_triangle width) fun acc hacc row hrow => ?_
  exact addTriangles_triangle hacc (h row hrow ▸ products_triangle row)

theorem addRidge_triangle {n : Nat} {triangle : List (List α)} (h : Triangle n triangle) :
    Triangle n (addRidge triangle) := by
  induction h with
  | nil => exact .nil
  | @cons n column columns height _ ih =>
    obtain ⟨d, below, rfl⟩ := List.exists_cons_of_length_eq_add_one height
    exact .cons height ih

theorem length_moments {width : Nat} {rows : List (List α)} (h : ∀ row ∈ rows, row.length = width)
    (y : List α) : (moments width rows y).length = width := by
  unfold moments
  refine List.foldlRecOn (motive := fun acc : List α => acc.length = width) _ _
    List.length_replicate fun acc hacc entry hentry => ?_
  simp [hacc, h entry.1 (List.of_mem_zip hentry).1]

omit [Scalar α] in
/-- A regression has more rows than regressors, all rows have one width, and every target has a value
for each row. -/
theorem checkShape_ok_iff {rows targets : List (List α)} : checkShape rows targets = .ok () ↔
    (rows.head?.getD []).length < rows.length ∧
      (∀ row ∈ rows, row.length = (rows.head?.getD []).length) ∧
      ∀ y ∈ targets, y.length = rows.length := by
  unfold checkShape
  dsimp only
  split_ifs with hrows
  · simp only [false_iff]
    omega
  have henough : (rows.head?.getD []).length < rows.length := by omega
  cases hwidth : rows.find? (·.length ≠ (rows.head?.getD []).length) with
  | some row =>
    have hbad := List.find?_some hwidth
    simp only [reduceCtorEq, false_iff]
    rintro ⟨-, hall, -⟩
    simp [hall row (List.mem_of_find?_eq_some hwidth)] at hbad
  | none =>
  rw [List.find?_eq_none] at hwidth
  cases htargets : targets.find? (·.length ≠ rows.length) with
  | some y =>
    have hbad := List.find?_some htargets
    simp only [reduceCtorEq, false_iff]
    rintro ⟨-, -, hall⟩
    simp [hall y (List.mem_of_find?_eq_some htargets)] at hbad
  | none =>
    rw [List.find?_eq_none] at htargets
    simp only [true_iff]
    exact ⟨henough, by simpa using hwidth, by simpa using htargets⟩

structure Fit.Covers (f : Fit α) (width : Nat) : Prop where
  length : f.coefficients.length = width
  finite : ∀ c ∈ f.coefficients, Scalar.isFinite c = true

theorem solveTarget_covers {factor : List (Cholesky.Pivot α)} {width : Nat}
    (hfactor : Cholesky.Tapers (width + 1) factor) {rows : List (List α)}
    (hrows : ∀ row ∈ rows, row.length = width + 1) {y : List α} {f : Fit α}
    (h : solveTarget factor rows y = .ok f) : f.Covers width := by
  have hlength : (Cholesky.solve factor (moments factor.length rows y)).length = width + 1 := by
    rw [hfactor.length]
    exact Cholesky.length_solve hfactor (length_moments hrows y)
  unfold solveTarget at h
  dsimp only at h
  split_ifs at h with hfinite
  generalize Cholesky.solve factor (moments factor.length rows y) = solution at h hlength hfinite
  cases solution with
  | nil => simp at h
  | cons intercept coefficients =>
    obtain rfl := Except.ok.inj h
    rw [List.all_cons, Bool.and_eq_true, List.all_eq_true] at hfinite
    exact ⟨by simpa using hlength, hfinite.2⟩

theorem fitAll_ok_iff {rows targets : List (List α)} {fits : List (Fit α)} :
    fitAll rows targets = .ok fits ↔ checkShape rows targets = .ok () ∧
      ∃ factor, Cholesky.factor? (addRidge (gram ((rows.head?.getD []).length + 1)
          (rows.map (1 :: ·)))) = some factor ∧
        targets.mapM (solveTarget factor (rows.map (1 :: ·))) = .ok fits := by
  unfold fitAll
  rw [bind_ok_iff]
  dsimp only
  constructor
  · rintro ⟨⟨⟩, hshape, h⟩
    split at h
    · simp at h
    · rename_i factor hfactor
      exact ⟨hshape, factor, hfactor, h⟩
  · rintro ⟨hshape, factor, hfactor, h⟩
    exact ⟨(), hshape, by rw [hfactor]; exact h⟩

theorem fitAll_covers {rows targets : List (List α)} {fits : List (Fit α)}
    (h : fitAll rows targets = .ok fits) : ∀ f ∈ fits, f.Covers (rows.head?.getD []).length := by
  obtain ⟨hshape, factor, hfactor, hfits⟩ := fitAll_ok_iff.1 h
  obtain ⟨-, hwidth, -⟩ := checkShape_ok_iff.1 hshape
  have hdesign : ∀ row ∈ rows.map ((1 : α) :: ·),
      row.length = (rows.head?.getD []).length + 1 := by
    intro row hrow
    obtain ⟨regressors, hmem, rfl⟩ := List.mem_map.1 hrow
    rw [List.length_cons, hwidth regressors hmem]
  have htapers := Cholesky.factor?_tapers (addRidge_triangle (gram_triangle hdesign)) hfactor
  intro f hf
  obtain ⟨y, -, hy⟩ := forall₂_mem_right (mapM_ok_iff.1 hfits) hf
  exact solveTarget_covers htapers hdesign hy

theorem fitAll_single_iff {rows : List (List α)} {y : List α} {fits : List (Fit α)} :
    fitAll rows [y] = .ok fits ↔ ∃ f, fit rows y = .ok f ∧ fits = [f] := by
  have hone : ∀ {fits}, fitAll rows [y] = .ok fits → ∃ f, fits = [f] := by
    intro fits h
    obtain ⟨-, factor, -, hfits⟩ := fitAll_ok_iff.1 h
    exact List.length_eq_one_iff.1 (mapM_ok_iff.1 hfits).length_eq.symm
  unfold fit
  constructor
  · intro h
    obtain ⟨f, rfl⟩ := hone h
    exact ⟨f, by rw [h]; rfl, rfl⟩
  · rintro ⟨f, h, rfl⟩
    obtain ⟨fits, hfits, h⟩ := bind_ok_iff.1 h
    obtain ⟨g, rfl⟩ := hone hfits
    rw [hfits, pure_ok_iff.1 h]

/-- A regression on rows of one width has more of them than regressors, and as many as values. -/
theorem fit_covers {rows : List (List α)} {width : Nat} (hrows : ∀ row ∈ rows, row.length = width)
    {y : List α} {f : Fit α} (h : fit rows y = .ok f) :
    width < rows.length ∧ y.length = rows.length ∧ f.Covers width := by
  have hall := fitAll_single_iff.2 ⟨f, h, rfl⟩
  obtain ⟨henough, -, htargets⟩ := checkShape_ok_iff.1 (fitAll_ok_iff.1 hall).1
  have hwidth : (rows.head?.getD []).length = width := by
    cases rows with
    | nil => simp at henough
    | cons row rest => exact hrows row (List.mem_cons_self ..)
  have hcovers := fitAll_covers hall f (List.mem_singleton_self f)
  rw [hwidth] at henough hcovers
  exact ⟨henough, htargets y (List.mem_singleton_self y), hcovers⟩

end LeastSquares
end Infill
