import Infill.Proofs.Success
import Infill.Series.Varmax

/-! Where a fit of the joint model stops, and what it has written by then. It is refused for its
shape and writes nothing; it finds no equations and leaves the new means alone; it stores equations
that do not hold and takes them back; or it succeeds, and has written every part of the model but
its order. -/

namespace Infill.Varmax

variable {α : Type}

theorem length_head {n : Nat} {series : List (List α)} (hpresent : series ≠ [])
    (h : ∀ xs ∈ series, xs.length = n) : (series.head?.getD []).length = n := by
  cases series with
  | nil => exact absurd rfl hpresent
  | cons xs rest => exact h xs List.mem_cons_self

/-- Lags, series of one length that is not zero, and a row of covariates for each of its times or none
at all. -/
theorem checkShape_ok_iff {p q : Nat} {series exog : List (List α)} :
    checkShape p q series exog = .ok () ↔ ¬ (p = 0 ∧ q = 0) ∧ series ≠ [] ∧
      ∃ n, 0 < n ∧ (∀ xs ∈ series, xs.length = n) ∧ (exog.length = n ∨ exog = []) := by
  unfold checkShape
  dsimp only
  constructor
  · intro h
    split_ifs at h with hpq hcount hrows
    · have hpresent : series ≠ [] := by
        rintro rfl
        exact hcount rfl
      rw [Bool.or_eq_true, decide_eq_true_eq, List.isEmpty_iff] at hrows
      split at h
      · cases h
      · rename_i hwidth
        rw [List.find?_eq_none] at hwidth
        exact ⟨by simpa using hpq, hpresent, _, Nat.pos_of_ne_zero hcount, by simpa using hwidth,
          hrows.symm⟩
    · split at h <;> cases h
  · rintro ⟨hpq, hpresent, n, hn, hseries, hrows⟩
    have hwidth : series.find? (·.length ≠ n) = none := by
      rw [List.find?_eq_none]
      simpa using hseries
    rw [length_head hpresent hseries, if_neg (by simpa using hpq), if_neg (Nat.ne_of_gt hn), hwidth]
    dsimp only
    rw [if_pos]
    rw [Bool.or_eq_true, decide_eq_true_eq, List.isEmpty_iff]
    exact hrows.symm

variable [Scalar α]

inductive FitCases (m : Varmax α) (series exog : List (List α)) : Prop
  | refused (e : Error) (shape : checkShape m.p m.q series exog = .error e)
      (result : m.fit series exog = (m, some e))
  | unsolved (e : Error) (shape : checkShape m.p m.q series exog = .ok ())
      (solved : (m.prepare series).solve series exog = .error e)
      (result : m.fit series exog = (m.prepare series, some e))
  | unstable (equations : List (LeastSquares.Fit α))
      (shape : checkShape m.p m.q series exog = .ok ())
      (solved : (m.prepare series).solve series exog = .ok equations)
      (stable : ((m.prepare series).store equations series exog).isStable = false)
      (result : m.fit series exog =
        ({ (m.prepare series).store equations series exog with equations := [] },
          some (.nonConvergence s!"VARMAX({m.p},{m.q}) produced non-finite residuals")))
  | stored (equations : List (LeastSquares.Fit α))
      (shape : checkShape m.p m.q series exog = .ok ())
      (solved : (m.prepare series).solve series exog = .ok equations)
      (stable : ((m.prepare series).store equations series exog).isStable = true)
      (result : m.fit series exog = ((m.prepare series).store equations series exog, none))

theorem fit_refused {m : Varmax α} {series exog : List (List α)} {e : Error}
    (shape : checkShape m.p m.q series exog = .error e) : m.fit series exog = (m, some e) := by
  unfold fit
  rw [shape]

theorem fit_shaped {m : Varmax α} {series exog : List (List α)}
    (shape : checkShape m.p m.q series exog = .ok ()) : m.fit series exog =
      match (m.prepare series).solve series exog with
      | .error e => (m.prepare series, some e)
      | .ok equations =>
        if ((m.prepare series).store equations series exog).isStable then
          ((m.prepare series).store equations series exog, none)
        else
          ({ (m.prepare series).store equations series exog with equations := [] },
            some (.nonConvergence s!"VARMAX({m.p},{m.q}) produced non-finite residuals")) := by
  unfold fit
  rw [shape]
  rfl

theorem fit_cases (m : Varmax α) (series exog : List (List α)) : m.FitCases series exog := by
  cases shape : checkShape m.p m.q series exog with
  | error e => exact .refused e shape (fit_refused shape)
  | ok =>
    have hfit := fit_shaped shape
    cases solved : (m.prepare series).solve series exog with
    | error e => exact .unsolved e shape solved (by rw [hfit, solved])
    | ok equations =>
      cases stable : ((m.prepare series).store equations series exog).isStable with
      | false => exact .unstable equations shape solved stable (by simp [hfit, solved, stable])
      | true => exact .stored equations shape solved stable (by simp [hfit, solved, stable])

/-- A fit that succeeds has stored the equations that it found. -/
theorem fit_eq_none_iff {m m' : Varmax α} {series exog : List (List α)} :
    m.fit series exog = (m', none) ↔ checkShape m.p m.q series exog = .ok () ∧
      ∃ equations, (m.prepare series).solve series exog = .ok equations ∧
        m' = (m.prepare series).store equations series exog ∧ m'.isStable = true := by
  constructor
  · intro h
    cases m.fit_cases series exog with
    | refused e shape result => simp [result] at h
    | unsolved e shape solved result => simp [result] at h
    | unstable equations shape solved stable result => simp [result] at h
    | stored equations shape solved stable result =>
      rw [result, Prod.mk.injEq] at h
      obtain ⟨rfl, -⟩ := h
      exact ⟨shape, equations, solved, rfl, stable⟩
  · rintro ⟨shape, equations, solved, rfl, stable⟩
    simp [fit_shaped shape, solved, stable]

end Infill.Varmax
