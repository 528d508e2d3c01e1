import Mathlib.Data.List.Induction
import Infill.Proofs.Series.JointFit
import Infill.Series.Sarimax
import Infill.Tree.Forest

/-! A model may be fitted again and again. What it answers afterwards is what a fresh model answers
that has seen one successful fit alone, or none: no equation of one fit meets the data of another.
Most models keep what they have when a fit fails. The joint model has written some of its parts by
then, unless the fit is refused for its shape, and counts as not fitted. -/

namespace Infill

/-- A kind of model: how it starts, what a fit makes of it and why it fails, and all that can be
asked of it. -/
structure Refitting (σ κ τ : Type) where
  fresh : σ
  fit : σ → κ → σ × Option Error
  answers : σ → τ
  /-- The fits that write nothing if they fail. -/
  keeps : κ → Prop

namespace Refitting

variable {σ κ τ : Type} (r : Refitting σ κ τ)

def after (fits : List κ) : σ := fits.foldl (fun m c => (r.fit m c).1) r.fresh

theorem after_append (fits : List κ) (c : κ) :
    r.after (fits ++ [c]) = (r.fit (r.after fits) c).1 := by
  simp only [after, List.foldl_append, List.foldl_cons, List.foldl_nil]

def failure (fits : List κ) (c : κ) : Option Error := (r.fit (r.after fits) c).2

/-- No fit leaves a trace in what the model answers after a later one. -/
structure Clean : Prop where
  /-- Whether a fit succeeds does not depend on those before it. -/
  failure : ∀ fits c, r.failure fits c = r.failure [] c
  succeeded : ∀ fits c, r.failure fits c = none →
    r.answers (r.after (fits ++ [c])) = r.answers (r.after [c])
  kept : ∀ fits c e, r.failure fits c = some e → r.keeps c →
    r.answers (r.after (fits ++ [c])) = r.answers (r.after fits)
  unfitted : ∀ fits c e, r.failure fits c = some e → ¬ r.keeps c →
    r.answers (r.after (fits ++ [c])) = r.answers r.fresh
  /-- All answers come from one successful fit, or from none. -/
  unmixed : ∀ fits, r.answers (r.after fits) = r.answers r.fresh ∨
    ∃ c ∈ fits, r.failure [] c = none ∧ r.answers (r.after fits) = r.answers (r.after [c])

/-- What one fit does to a model of which `Inv` holds. -/
structure Steps (Inv : σ → Prop) : Prop where
  fresh : Inv r.fresh
  keeps : ∀ m c, Inv m → Inv (r.fit m c).1
  failure : ∀ m c, Inv m → (r.fit m c).2 = (r.fit r.fresh c).2
  succeeded : ∀ m c, Inv m → (r.fit m c).2 = none →
    r.answers (r.fit m c).1 = r.answers (r.fit r.fresh c).1
  kept : ∀ m c e, Inv m → (r.fit m c).2 = some e → r.keeps c →
    r.answers (r.fit m c).1 = r.answers m
  unfitted : ∀ m c e, Inv m → (r.fit m c).2 = some e → ¬ r.keeps c →
    r.answers (r.fit m c).1 = r.answers r.fresh

namespace Steps

variable {r} {Inv : σ → Prop}

theorem after (h : r.Steps Inv) (fits : List κ) : Inv (r.after fits) := by
  induction fits using List.reverseRecOn with
  | nil => exact h.fresh
  | append_singleton fits c ih =>
    rw [after_append]
    exact h.keeps _ c ih

theorem clean (h : r.Steps Inv) : r.Clean where
  failure fits c := h.failure _ c (h.after fits)
  succeeded fits c hc := by
    rw [after_append]
    exact h.succeeded _ c (h.after fits) hc
  kept fits c e hc hkeeps := by
    rw [after_append]
    exact h.kept _ c e (h.after fits) hc hkeeps
  unfitted fits c e hc hkeeps := by
    rw [after_append]
    exact h.unfitted _ c e (h.after fits) hc hkeeps
  unmixed fits := by
    induction fits using List.reverseRecOn with
    | nil => exact Or.inl rfl
    | append_singleton fits c ih =>
      have hinv := h.after fits
      rw [after_append]
      cases hc : (r.fit (r.after fits) c).2 with
      | none =>
        refine Or.inr ⟨c, by simp, ?_, h.succeeded _ c hinv hc⟩
        exact (h.failure _ c hinv).symm.trans hc
      | some e =>
        by_cases hkeeps : r.keeps c
        · rw [h.kept _ c e hinv hc hkeeps]
          refine ih.imp_right ?_
          rintro ⟨d, hd, hsolo, heq⟩
          exact ⟨d, List.mem_append_left _ hd, hsolo, heq⟩
        · exact Or.inl (h.unfitted _ c e hinv hc hkeeps)

/-- A fit that writes once, at its end, or not at all. -/
theorem of_atomic {β : Type} (fresh : Inv r.fresh) (estimate : κ → Except Error β) (write : β → σ)
    (written : ∀ b, Inv (write b))
    (hfit : ∀ m c, Inv m → r.fit m c =
      match estimate c with
      | .ok b => (write b, none)
      | .error e => (m, some e))
    (hkeeps : ∀ c, r.keeps c) : r.Steps Inv where
  fresh := fresh
  keeps m c hm := by
    rw [hfit m c hm]
    cases estimate c with
    | ok b => exact written b
    | error e => exact hm
  failure m c hm := by
    rw [hfit m c hm, hfit _ c fresh]
    cases estimate c <;> rfl
  succeeded m c hm h := by
    rw [hfit m c hm] at h ⊢
    rw [hfit _ c fresh]
    cases hc : estimate c with
    | ok b => rfl
    | error e => simp [hc] at h
  kept m c e hm h _ := by
    rw [hfit m c hm] at h ⊢
    cases hc : estimate c with
    | ok b => simp [hc] at h
    | error e => rfl
  unfitted m c e _ _ hc := absurd (hkeeps c) hc

end Steps
end Refitting

variable {α : Type} [Scalar α]

structure SeriesSample (α : Type) where
  endog : List (List α)
  exog : List (List α)

structure SeriesAnswers (α γ : Type) where
  forecastFrom : (history horizon : Nat) → (covariates : List (List α)) → Except Error (Forecast α)
  forecast : (horizon : Nat) → (covariates : List (List α)) → Except Error (Forecast α)
  backcast : (horizon : Nat) → (covariates : List (List α)) → Except Error (Forecast α)
  observations : Option Nat
  coefficients : γ

namespace Sarimax

abbrev Coefficients (α : Type) :=
  Option (LeastSquares.Fit α) × List (Nat × α) × List (Nat × α)

def refitting (order : SarimaxOrder) :
    Refitting (Sarimax α) (SeriesSample α) (SeriesAnswers α (Coefficients α)) where
  fresh := new order
  fit m c := m.fit c.endog c.exog
  answers m :=
    { forecastFrom := m.forecastFrom
      forecast := m.forecast
      backcast := m.backcast
      observations := m.observations
      coefficients := (m.regression, m.arCoefficients, m.maCoefficients) }
  keeps _ := True

theorem steps (order : SarimaxOrder) :
    (refitting order : Refitting (Sarimax α) _ _).Steps fun m => m.order = order := by
  refine .of_atomic rfl (fun c => SarimaxFit.estimate order c.endog c.exog)
    (fun f => ⟨order, some f⟩) (fun f => rfl) ?_ fun c => trivial
  rintro m c rfl
  simp only [refitting, fit]
  cases SarimaxFit.estimate m.order c.endog c.exog <;> rfl

end Sarimax

namespace Varmax

def answers (m : Varmax α) : SeriesAnswers α (List (LeastSquares.Fit α)) where
  forecastFrom := m.forecastFrom
  forecast := m.forecast
  backcast := m.backcast
  observations := m.observations
  coefficients := m.equations

/-- Only a fit that is refused for its order or its shape keeps what is there. -/
def refitting (p q : Nat) : Refitting (Varmax α) (SeriesSample α)
    (SeriesAnswers α (List (LeastSquares.Fit α))) where
  fresh := new p q
  fit m c := m.fit c.endog c.exog
  answers := answers
  keeps c := checkShape p q c.endog c.exog ≠ .ok ()

/-- Without equations a model answers as a fresh one, whatever else it holds. -/
theorem answers_unfitted {m : Varmax α} (h : m.equations = []) (p q : Nat) :
    m.answers = (new p q).answers := by
  have hnone : m.observations = none := by simp [observations, h]
  have hfresh : (new p q : Varmax α).observations = none := rfl
  have hforecastFrom : m.forecastFrom = (new p q).forecastFrom := by
    funext history horizon future
    simp only [forecastFrom, hnone, hfresh]
  have hforecast : m.forecast = (new p q).forecast := by
    funext horizon future
    simp only [forecast, hnone, hfresh]
  have hbackcast : m.backcast = (new p q).backcast := by
    funext horizon before
    simp only [backcast, hnone, hfresh, Option.isNone_none, if_true]
    rfl
  unfold answers
  rw [hforecastFrom, hforecast, hbackcast, hnone, hfresh, h]
  rfl

variable {m : Varmax α} {series exog : List (List α)}

theorem fit_order (m : Varmax α) (series exog : List (List α)) :
    (m.fit series exog).1.p = m.p ∧ (m.fit series exog).1.q = m.q := by
  cases m.fit_cases series exog with
  | refused e shape result => simp [result]
  | unsolved e shape solved result => simp [result, prepare]
  | unstable equations shape solved stable result => simp [result, prepare, store]
  | stored equations shape solved stable result => simp [result, prepare, store]

theorem fit_success (h : (m.fit series exog).2 = none) :
    m.fit series exog = (new m.p m.q : Varmax α).fit series exog := by
  have hfit : m.fit series exog = ((m.fit series exog).1, none) := Prod.ext rfl h
  obtain ⟨shape, equations, solved, hstored, stable⟩ := fit_eq_none_iff.1 hfit
  have hfresh : (new m.p m.q : Varmax α).fit series exog = ((m.fit series exog).1, none) :=
    fit_eq_none_iff.2 ⟨shape, equations, solved, hstored, stable⟩
  rw [hfresh, ← hfit]

theorem fit_unsuccessful {e : Error} (shape : checkShape m.p m.q series exog = .ok ())
    (h : (m.fit series exog).2 = some e) : (m.fit series exog).1.equations = [] := by
  cases m.fit_cases series exog with
  | refused e refused result => rw [shape] at refused; cases refused
  | unsolved e shape solved result => rw [result]; rfl
  | unstable equations shape solved stable result => rw [result]
  | stored equations shape solved stable result => simp [result] at h

/-- The reason of a failure lies in the order and the sample. -/
theorem fit_failure (m : Varmax α) (series exog : List (List α)) :
    (m.fit series exog).2 = ((new m.p m.q : Varmax α).fit series exog).2 := by
  cases hshape : checkShape m.p m.q series exog with
  | error e =>
    have hfresh : (new m.p m.q : Varmax α).fit series exog = (new m.p m.q, some e) :=
      fit_refused hshape
    rw [fit_refused hshape, hfresh]
  | ok =>
    have hfresh := fit_shaped (m := (new m.p m.q : Varmax α)) hshape
    rw [fit_shaped hshape, hfresh]
    have hsolve : ((new m.p m.q : Varmax α).prepare series).solve series exog =
        (m.prepare series).solve series exog := rfl
    rw [hsolve]
    cases (m.prepare series).solve series exog with
    | error e => rfl
    | ok equations => rfl

theorem steps (p q : Nat) :
    (refitting p q : Refitting (Varmax α) _ _).Steps fun m => m.p = p ∧ m.q = q where
  fresh := ⟨rfl, rfl⟩
  keeps := by
    rintro m c ⟨rfl, rfl⟩
    exact fit_order m c.endog c.exog
  failure := by
    rintro m c ⟨rfl, rfl⟩
    exact fit_failure m c.endog c.exog
  succeeded := by
    rintro m c ⟨rfl, rfl⟩ h
    exact congrArg (fun fitted => fitted.1.answers) (fit_success h)
  kept := by
    rintro m c e ⟨rfl, rfl⟩ - hkeeps
    cases hshape : checkShape m.p m.q c.endog c.exog with
    | ok => exact absurd hshape hkeeps
    | error e => exact congrArg (fun fitted => fitted.1.answers) (fit_refused hshape)
  unfitted := by
    rintro m c e ⟨rfl, rfl⟩ h hkeeps
    exact answers_unfitted (fit_unsuccessful (not_not.1 hkeeps) h) m.p m.q

end Varmax

/-- Rows of features with their targets, all of them or a listed sample. -/
inductive TreeSample (α : Type)
  | all (x : List (List α)) (y : List α)
  | listed (x : List (List α)) (y : List α) (sample : List Nat)

structure TreeAnswers (α γ : Type) where
  predict : (rows : List (List α)) → Except Error (List α)
  isFitted : Bool
  shape : γ

namespace DecisionTree

def fitTo (m : DecisionTree α) : TreeSample α → DecisionTree α × Option Error
  | .all x y => m.fit x y
  | .listed x y sample => m.fitSample x y sample

def grownOn (limits : TreeLimits) : TreeSample α → Except Error (GrownTree α)
  | .all x y => GrownTree.ofSample limits x y (List.range y.length)
  | .listed x y sample => GrownTree.ofSample limits x y sample

/-- The shape of a tree is its depth and its number of nodes. -/
def refitting (limits : TreeLimits) :
    Refitting (DecisionTree α) (TreeSample α) (TreeAnswers α (Nat × Nat)) where
  fresh := new limits
  fit := fitTo
  answers m := { predict := m.predict, isFitted := m.isFitted, shape := (m.depth, m.nodeCount) }
  keeps _ := True

theorem steps (limits : TreeLimits) :
    (refitting limits : Refitting (DecisionTree α) _ _).Steps fun m => m.limits = limits := by
  refine .of_atomic rfl (grownOn limits) (fun grown => ⟨limits, some grown⟩) (fun grown => rfl) ?_
    fun c => trivial
  rintro m c rfl
  cases c with
  | all x y =>
    simp only [refitting, fitTo, fit, fitSample, grownOn]
    cases GrownTree.ofSample m.limits x y (List.range y.length) <;> rfl
  | listed x y sample =>
    simp only [refitting, fitTo, fitSample, grownOn]
    cases GrownTree.ofSample m.limits x y sample <;> rfl

end DecisionTree

namespace Forest

/-- The shapes of its trees are the shape of a forest. -/
def refitting (limits : ForestLimits) :
    Refitting (Forest α) (List (List α) × List α) (TreeAnswers α (List (Nat × Nat))) where
  fresh := new limits
  fit m c := m.fit c.1 c.2
  answers m :=
    { predict := m.predict
      isFitted := m.isFitted
      shape := m.trees.map fun t => (t.root.depth, t.root.nodeCount) }
  keeps _ := True

theorem steps (limits : ForestLimits) :
    (refitting limits : Refitting (Forest α) _ _).Steps fun m => m.limits = limits := by
  refine .of_atomic rfl (fun c => grow limits c.1 c.2) (fun trees => ⟨limits, trees⟩)
    (fun trees => rfl) ?_ fun c => trivial
  rintro m c rfl
  simp only [refitting, fit]
  cases grow m.limits c.1 c.2 <;> rfl

end Forest

/-- No model of any kind mixes one fit with another: it answers as a fresh one that was fitted once,
keeps all answers over a fit that fails, and at worst counts as not fitted. -/
theorem refits_clean :
    (∀ order, (Sarimax.refitting order : Refitting (Sarimax α) _ _).Clean) ∧
    (∀ p q, (Varmax.refitting p q : Refitting (Varmax α) _ _).Clean) ∧
    (∀ limits, (DecisionTree.refitting limits : Refitting (DecisionTree α) _ _).Clean) ∧
    (∀ limits, (Forest.refitting limits : Refitting (Forest α) _ _).Clean) :=
  ⟨fun order => (Sarimax.steps order).clean, fun p q => (Varmax.steps p q).clean,
    fun limits => (DecisionTree.steps limits).clean, fun limits => (Forest.steps limits).clean⟩

end Infill
