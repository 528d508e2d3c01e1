import Infill.Impute.SeriesFill
import Infill.Proofs.Series.JointFit

/-! The reasons for which a fit fails. That a gap is left open is told by the filling of gaps alone:
no regression, no estimate and no search gives it as its reason. -/

namespace Infill

variable {α β γ : Type} [Scalar α]

def Error.tellsOfGap : Error → Bool
  | .gapNotFilled _ _ => true
  | _ => false

/-- A computation that never fails for a gap. -/
def FailsPlainly (x : Except Error β) : Prop := ∀ e, x = .error e → e.tellsOfGap = false

namespace FailsPlainly

theorem ok (b : β) : FailsPlainly (.ok b) := by
  rintro e ⟨⟩

theorem pure (b : β) : FailsPlainly (Pure.pure b) := ok b

theorem error {e : Error} (h : e.tellsOfGap = false) : FailsPlainly (.error e : Except Error β) := by
  rintro _ ⟨⟩
  exact h

theorem bind {x : Except Error β} {f : β → Except Error γ} (hx : FailsPlainly x)
    (hf : ∀ b, FailsPlainly (f b)) : FailsPlainly (x >>= f) := by
  cases x with
  | error e => exact error (hx e rfl)
  | ok b => exact hf b

theorem check {c : Prop} [Decidable c] {e : Error} (he : e.tellsOfGap = false) {rest : β → Except Error γ}
    {next : Except Error γ} (h : FailsPlainly next) :
    FailsPlainly (if c then (throw e : Except Error β) >>= rest else next) := by
  split_ifs
  · exact error he
  · exact h

theorem mapM {f : β → Except Error γ} {xs : List β} (h : ∀ x, FailsPlainly (f x)) :
    FailsPlainly (xs.mapM f) := by
  induction xs with
  | nil => exact ok []
  | cons x xs ih =>
    rw [List.mapM_cons]
    exact (h x).bind fun _ => ih.bind fun _ => pure _

end FailsPlainly

namespace LeastSquares

omit [Scalar α] in
theorem checkShape_plain (rows targets : List (List α)) :
    FailsPlainly (checkShape rows targets) := by
  unfold checkShape
  dsimp only
  split_ifs
  · exact .error rfl
  · split
    · exact .error rfl
    · split
      · exact .error rfl
      · exact .ok _

theorem solveTarget_plain (factor : List (Cholesky.Pivot α)) (rows : List (List α)) (y : List α) :
    FailsPlainly (solveTarget factor rows y) := by
  unfold solveTarget
  dsimp only
  split
  · split
    · exact .ok _
    · exact .error rfl
  · exact .error rfl

theorem fitAll_plain (rows targets : List (List α)) : FailsPlainly (fitAll rows targets) := by
  unfold fitAll
  refine (checkShape_plain rows targets).bind fun _ => ?_
  dsimp only
  split
  · exact .error rfl
  · exact .mapM fun _ => solveTarget_plain _ _ _

theorem fit_plain (rows : List (List α)) (y : List α) : FailsPlainly (fit rows y) := by
  unfold fit
  refine (fitAll_plain rows [y]).bind fun fits => ?_
  split
  · exact .pure _
  · exact .error rfl

end LeastSquares

namespace Arma

theorem firstStage_plain (w : List α) (arLags maLags : List Nat) :
    FailsPlainly (firstStage w arLags maLags) := by
  unfold firstStage
  dsimp only
  split_ifs
  · exact .ok _
  · exact .error rfl
  · refine FailsPlainly.bind ?_ fun _ => .pure _
    exact (LeastSquares.fit_plain _ _).bind fun _ => .pure _

theorem estimate_plain (w : List α) (arLags maLags : List Nat) :
    FailsPlainly (estimate w arLags maLags) := by
  unfold estimate
  dsimp only
  split_ifs
  · exact .error rfl
  · exact .ok _
  · refine (firstStage_plain w arLags maLags).bind fun stage => ?_
    refine .check rfl ?_
    exact (LeastSquares.fit_plain _ _).bind fun _ => .pure _

end Arma

theorem SarimaxFit.regress_plain (y : List α) (exog : List (List α)) :
    FailsPlainly (regress y exog) := by
  unfold regress
  split_ifs
  · exact .ok _
  · exact .error rfl
  · exact (LeastSquares.fit_plain _ _).bind fun _ => .pure _

theorem SarimaxFit.estimate_plain (order : SarimaxOrder) (endog exog : List (List α)) :
    FailsPlainly (estimate order endog exog) := by
  unfold estimate
  dsimp only
  split
  · refine (FailsPlainly.pure _).bind fun y => ?_
    refine .check rfl ?_
    refine (regress_plain y exog).bind fun regression => ?_
    refine (Arma.estimate_plain _ _ _).bind fun arma => ?_
    split
    · exact .pure _
    · exact .error rfl
  · exact .error rfl

namespace Varmax

omit [Scalar α] in
theorem checkShape_plain (p q : Nat) (series exog : List (List α)) :
    FailsPlainly (checkShape p q series exog) := by
  unfold checkShape
  dsimp only
  split
  · exact .error rfl
  split
  · exact .error rfl
  split
  · exact .error rfl
  split
  · exact .ok _
  · exact .error rfl

theorem firstStage_plain (means : List α) (p q : Nat) (series exog : List (List α))
    (count : Nat) : FailsPlainly (firstStage means p q series exog count) := by
  unfold firstStage
  dsimp only
  split_ifs
  · exact .ok _
  · exact .error rfl
  · refine FailsPlainly.bind ?_ fun _ => .pure _
    exact (LeastSquares.fitAll_plain _ _).bind fun _ => .pure _

theorem solve_plain (m : Varmax α) (series exog : List (List α)) :
    FailsPlainly (m.solve series exog) := by
  unfold solve
  refine (firstStage_plain _ m.p m.q series exog _).bind fun stage => ?_
  exact .check rfl (LeastSquares.fitAll_plain _ _)

theorem fit_plain {m m' : Varmax α} {series exog : List (List α)} {e : Error}
    (h : m.fit series exog = (m', some e)) : e.tellsOfGap = false := by
  cases m.fit_cases series exog with
  | refused e shape result =>
    rw [result] at h
    cases h
    exact checkShape_plain _ _ _ _ _ shape
  | unsolved e shape solved result =>
    rw [result] at h
    cases h
    exact solve_plain _ _ _ _ solved
  | unstable equations shape solved stable result =>
    rw [result] at h
    cases h
    rfl
  | stored equations shape solved stable result => simp [result] at h

end Varmax

theorem Search.requireBest_plain (name : String) (score : β → α) (trials : List (Trial β)) :
    FailsPlainly (requireBest name score trials) := by
  unfold requireBest
  split
  · exact .ok _
  · exact .error rfl

namespace SeriesFill

def Family.Plain (family : Family α) : Prop :=
  ∀ config series covariates, FailsPlainly (family.fit config series covariates)

theorem Single.family_plain : (Single.family : Family α).Plain := by
  intro config series covariates
  have hplain := SarimaxFit.estimate_plain (Single.orderOf config) series covariates
  unfold Single.family Sarimax.fit Sarimax.new
  dsimp only
  cases hfit : SarimaxFit.estimate (Single.orderOf config) series covariates with
  | ok f => exact .ok _
  | error e => exact .error (hplain e hfit)

theorem Joint.family_plain : (Joint.family : Family α).Plain := by
  intro config series covariates
  unfold Joint.family
  dsimp only
  split
  · exact .ok _
  · rename_i m e hfit
    exact .error (Varmax.fit_plain hfit)

end SeriesFill

end Infill
