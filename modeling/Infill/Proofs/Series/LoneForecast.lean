import Infill.Proofs.Scalar.Exact
import Infill.Proofs.Series.LoneFit
import Infill.Proofs.Series.Predictions

/-! A single series is forecast by both models in the same way. Over exact numbers the equation of the
joint model adds up what the process adds up in two sums, so the innovations of the sample, the
steps ahead and the steps in front of the sample are the same. -/

namespace Infill

theorem foldl_max_lagsTo (n m : Nat) : (lagsTo n).foldl max m = max m n := by
  induction n with
  | zero => simp [lagsTo]
  | succ n ih =>
    have hlags : lagsTo (n + 1) = lagsTo n ++ [n + 1] := by simp [lagsTo, List.range_succ]
    rw [hlags, List.foldl_append, ih, List.foldl_cons, List.foldl_nil]
    omega

theorem Arma.OfOrder.maxLag {α : Type} [Scalar α] {a : Arma α} {p q : Nat} (h : a.OfOrder p q) :
    a.maxLag = max p q := by
  rw [Arma.maxLag, List.map_append, h.ar, h.ma, List.foldl_append, foldl_max_lagsTo,
    foldl_max_lagsTo, Nat.zero_max]

namespace Varmax

/-- The joint model of a single series that a process explains. -/
def ofArma {α : Type} (p q : Nat) (a : Arma α) (w : List α) (exog : List (List α)) : Varmax α :=
  ⟨p, q, [a.mean], [equationOf a], [w], exog, 0⟩

section Dynamics

variable {K : Type} [ExactNumber K] {p q : Nat} {a : Arma (Exact K)} {w : List (Exact K)}
  {exog : List (List (Exact K))}

/-- One sum over all regressors is the sum over values and that over innovations. -/
theorem predict_lone (h : a.OfOrder p q) (past : List (Arma.Moment (Exact K))) :
    (equationOf a).predict (regressors [a.mean] p q [] (past.map lone)) = a.predictNext past := by
  have hlength : (a.ar.map (·.2)).length = (a.ar.map fun c =>
      ((Past.back? past c.1).map (·.1)).getD a.mean).length := by simp
  have hma : a.ma.map (fun c => c.2 * ((Past.back? past c.1).map (·.2)).getD 0) =
      a.ma.map fun c => ((Past.back? past c.1).map (c.2 * ·.2)).getD 0 := by
    refine List.map_congr_left fun c hc => ?_
    have hfinite := h.finite c (List.mem_append_right _ hc)
    cases Past.back? past c.1 with
    | none => exact Exact.mul_zero_of_isFinite hfinite
    | some moment => rfl
  rw [regressors_lone, ← h.ar, ← h.ma, List.map_map, List.map_map]
  unfold LeastSquares.Fit.predict Scalar.dot equationOf Arma.predictNext
  dsimp only
  rw [Function.comp_def, Function.comp_def, List.zipWith_append hlength, List.zipWith_map,
    List.zipWith_map, List.zipWith_self, List.zipWith_self, hma, Exact.sum_append]
  exact (Std.Associative.assoc _ _ _).symm

theorem observe_lone (h : a.OfOrder p q) (past : List (Arma.Moment (Exact K))) (x : Exact K) :
    (ofArma p q a w exog).observe (past.map lone) ([x], []) = (a.observe past x).map lone := by
  have hshocks : shocksOf [equationOf a] (regressors [a.mean] p q [] (past.map lone)) [x] =
      [x - a.predictNext past] := by
    rw [shocksOf, List.zipWith_cons_cons, List.zipWith_nil_left, predict_lone h]
  change JointMoment.mk [x] (if (past.map lone).length < max p q then [0] else
    shocksOf [equationOf a] (regressors [a.mean] p q [] (past.map lone)) [x]) :: past.map lone = _
  rw [Arma.observe, h.maxLag, List.length_map, hshocks]
  split_ifs <;> rfl

theorem history_lone (h : a.OfOrder p q) (hexog : Uncovered exog) (k : Nat) :
    (ofArma p q a w exog).history k = (a.history (w.take k)).map lone := by
  have hrows : ((JointMoment.across [w]).take k).mapIdx
      (fun t values => (values, covariatesAt exog t)) = (w.take k).map fun x => ([x], []) := by
    simp only [hexog.covariatesAt]
    rw [JointMoment.across_single, mapIdx_const, ← List.map_take, List.map_map]
    rfl
  calc (ofArma p q a w exog).history k
    _ = ((w.take k).map fun x => ([x], [])).foldl (ofArma p q a w exog).observe [] :=
        congrArg (List.foldl _ []) hrows
    _ = (w.take k).foldl (fun past x => (ofArma p q a w exog).observe past ([x], []))
          (List.map lone []) := List.foldl_map
    _ = (a.history (w.take k)).map lone :=
        List.foldl_hom (List.map lone) fun past x => observe_lone h past x

theorem ahead_lone (h : a.OfOrder p q) (past : List (Arma.Moment (Exact K))) (steps : Nat) :
    (ofArma p q a w exog).ahead (past.map lone) (List.replicate steps []) =
      (a.ahead past steps).map fun x => [x] := by
  induction steps generalizing past with
  | zero => rfl
  | succ steps ih =>
    have hnext : (ofArma p q a w exog).predictNext [] (past.map lone) = [a.predictNext past] := by
      simp only [predictNext, ofArma, List.map_cons, List.map_nil, predict_lone h]
    rw [List.replicate_succ, ahead, Arma.ahead, List.map_cons, hnext]
    exact congrArg _ (ih ((a.predictNext past, 0) :: past))

end Dynamics

end Varmax

def SarimaxOrder.plain (p q : Nat) : SarimaxOrder := ⟨p, 0, q, 0, 0, 0, 0⟩

def SarimaxFit.ofArma {α : Type} (a : Arma α) (w : List α) (exog : List (List α)) : SarimaxFit α :=
  ⟨none, a, w, w, exog⟩

/-- The forecast of a single series by these values, which must be finite. -/
def Forecast.Settles {α : Type} [Scalar α] (f : Forecast α) (values : List α) : Prop :=
  values.all Scalar.isFinite = true ∧ .ofValues values = f

section Forecasts

variable {K : Type} [ExactNumber K] {p q : Nat} {a : Arma (Exact K)} {w : List (Exact K)}
  {exog : List (List (Exact K))} {forecast : Forecast (Exact K)}

/-- From any part of the sample the joint model continues as the process does. -/
theorem Varmax.forecastFrom_lone (h : a.OfOrder p q) (hexog : Uncovered exog) {k : Nat}
    (hpast : 1 ≤ k) (hk : k ≤ w.length) (horizon : Nat) (future : List (List (Exact K))) :
    (ofArma p q a w exog).forecastFrom k horizon future = .ok forecast ↔
      forecast.Settles (a.extend (w.take k) horizon) := by
  have hobserved : (ofArma p q a w exog).observations = some w.length := rfl
  have hrows : (ofArma p q a w exog).futureRows horizon future = List.replicate horizon [] := by
    simp [futureRows, ofArma, List.map_const']
  have hsteps : (ofArma p q a w exog).ahead ((ofArma p q a w exog).history k)
      (List.replicate horizon []) = (a.extend (w.take k) horizon).map fun x => [x] := by
    rw [history_lone h hexog, ahead_lone h, Arma.extend]
  have halong : ∀ xs : List (Exact K),
      JointMoment.along (ofArma p q a w exog).endog.length (xs.map fun x => [x]) = [xs] := by
    intro xs
    simp [JointMoment.along, ofArma, List.range_succ, Function.comp_def]
  rw [forecastFrom_ok_iff, hrows, hsteps, halong, hobserved]
  constructor
  · rintro ⟨_, -, -, -, -, hfinite, rfl⟩
    exact ⟨by simpa [Forecast.isFinite] using hfinite, rfl⟩
  · rintro ⟨hfinite, rfl⟩
    refine ⟨_, rfl, hpast, hk, fun hwidth => absurd hwidth (lt_irrefl 0), ?_, rfl⟩
    simpa [Forecast.isFinite, Forecast.ofValues] using hfinite

/-- Where nothing was regressed, covariates explain nothing. -/
theorem SarimaxFit.mapIdx_explained (future : List (List (Exact K))) (steps : List (Exact K)) :
    steps.mapIdx (fun i u => u + (ofArma a w exog).explained future[i]?) = steps := by
  have hnothing : ∀ row, (ofArma a w exog).explained row = 0 := by
    rintro (- | row) <;> rfl
  simp only [hnothing, Exact.add_zero_right]
  rw [mapIdx_const, List.map_id']

/-- Without differences and covariates a forecast of the single model is one of its process. -/
theorem SarimaxFit.forecastFrom_lone {k : Nat} (hpast : 1 ≤ k) (hk : k ≤ w.length) (horizon : Nat)
    (future : List (List (Exact K))) :
    (ofArma a w exog).forecastFrom (.plain p q) k horizon future = .ok forecast ↔
      forecast.Settles (a.extend (w.take k) horizon) := by
  have hpresent : w.take k ≠ [] := by
    rw [ne_eq, List.take_eq_nil_iff, ← List.length_eq_zero_iff]
    omega
  have hchain : (SarimaxOrder.plain p q).differencing.apply (w.take k) = w.take k := rfl
  have hintegrate : ∀ xs, (SarimaxOrder.plain p q).differencing.integrate (w.take k) xs = .ok xs :=
    fun _ => rfl
  have htake : (ofArma a w exog).residual.take k = w.take k := rfl
  have harma : (ofArma a w exog).arma = a := rfl
  rw [forecastFrom_ok_iff, htake, hchain, harma]
  simp only [hintegrate, Except.ok.injEq, exists_eq_left', mapIdx_explained]
  -- A horizon of 0 is answered in front of the other checks, and with the same empty forecast.
  by_cases hzero : horizon = 0
  · subst hzero
    have hempty : a.extend (w.take k) 0 = [] := rfl
    simp [hk, Forecast.Settles, hempty, ofArma]
  · simp [hk, hzero, hpresent, Forecast.Settles, ofArma]

end Forecasts

/-- A process explains a series if it is the estimate of an order and leaves finite innovations. -/
def Arma.Explains {α : Type} [Scalar α] (a : Arma α) (p q : Nat) (w : List α) : Prop :=
  w ≠ [] ∧ estimate w (lagsTo p) (lagsTo q) = .ok a ∧ (a.residuals w).all Scalar.isFinite = true

section Fits

variable {K : Type} [ExactNumber K] {p q : Nat} {w : List (Exact K)} {exog : List (List (Exact K))}

theorem SarimaxFit.estimate_lone (hexog : Uncovered exog) {f : SarimaxFit (Exact K)} :
    estimate (.plain p q) [w] exog = .ok f ↔ ∃ a : Arma (Exact K), a.Explains p q w ∧
      f = ofArma a w exog := by
  have hregress : regress w exog = .ok none := by simp [regress, hexog.head]
  have har : (SarimaxOrder.plain p q).arLags = lagsTo p := SarimaxOrder.lagSet_plain p
  have hma : (SarimaxOrder.plain p q).maLags = lagsTo q := SarimaxOrder.lagSet_plain q
  have hchain : (SarimaxOrder.plain p q).differencing.apply w = w := rfl
  have hresidual : unexplained w exog none = w := rfl
  unfold estimate
  dsimp only
  rw [pure_bind, check_ok_iff, hregress, List.isEmpty_iff, har, hma, bind_ok_iff]
  simp only [Except.ok.injEq, exists_eq_left', hresidual, hchain, bind_ok_iff, checked_ok_iff]
  constructor
  · rintro ⟨hne, a, ha, hfinite, rfl⟩
    exact ⟨a, ⟨hne, ha, hfinite⟩, rfl⟩
  · rintro ⟨a, ⟨hne, ha, hfinite⟩, rfl⟩
    exact ⟨hne, a, ha, hfinite, rfl⟩

theorem Sarimax.fit_lone (hexog : Uncovered exog) {m : Sarimax (Exact K)} :
    (new (.plain p q)).fit [w] exog = (m, none) ↔ ∃ a : Arma (Exact K), a.Explains p q w ∧
      m = ⟨.plain p q, some (.ofArma a w exog)⟩ := by
  unfold fit new
  dsimp only
  constructor
  · intro h
    split at h
    · rename_i f hf
      obtain ⟨a, ha, rfl⟩ := (SarimaxFit.estimate_lone hexog).1 hf
      exact ⟨a, ha, (Prod.mk.inj h).1.symm⟩
    · simp at h
  · rintro ⟨a, ha, rfl⟩
    rw [(SarimaxFit.estimate_lone hexog).2 ⟨a, ha, rfl⟩]

theorem Varmax.isStable_lone {a : Arma (Exact K)} (h : a.OfOrder p q) (hexog : Uncovered exog) :
    (ofArma p q a w exog).isStable = (a.residuals w).all Scalar.isFinite := by
  have hhistory : (ofArma p q a w exog).history w.length = (a.history w).map lone := by
    rw [history_lone h hexog, List.take_length]
  have hlength : ((ofArma p q a w exog).endog.head?.getD []).length = w.length := rfl
  rw [isStable, hlength, hhistory, Arma.residuals, List.all_reverse, List.all_map, List.all_map]
  simp [lone, Function.comp_def]

omit [ExactNumber K] in
theorem Varmax.checkShape_lone (hpq : ¬ (p = 0 ∧ q = 0))
    (hcount : exog = [] ∨ exog.length = w.length) :
    checkShape p q [w] exog = .ok () ↔ w ≠ [] := by
  rw [checkShape_ok_iff]
  constructor
  · rintro ⟨-, -, n, hn, hlength, -⟩
    rw [← hlength w List.mem_cons_self] at hn
    exact List.length_pos_iff.1 hn
  · intro hw
    exact ⟨hpq, List.cons_ne_nil _ _, w.length, List.length_pos_iff.2 hw, by simp, hcount.symm⟩

theorem Varmax.fit_lone (hpq : ¬ (p = 0 ∧ q = 0)) (hexog : Uncovered exog)
    (hcount : exog = [] ∨ exog.length = w.length) {m : Varmax (Exact K)} :
    (new p q).fit [w] exog = (m, none) ↔ ∃ a : Arma (Exact K), a.Explains p q w ∧
      m = ofArma p q a w exog := by
  have hstore : ∀ {a : Arma (Exact K)}, Arma.estimate w (lagsTo p) (lagsTo q) = .ok a →
      ((new p q).prepare [w]).store [equationOf a] [w] exog = ofArma p q a w exog := by
    intro a ha
    obtain ⟨-, hmean⟩ := Arma.ofOrder_of_estimate hpq ha
    simp [new, prepare, store, ofArma, hmean, hexog.head]
  have hsolve : ∀ {equations}, ((new p q).prepare [w]).solve [w] exog = .ok equations ↔
      ∃ a, Arma.estimate w (lagsTo p) (lagsTo q) = .ok a ∧ equations = [equationOf a] :=
    solve_eq_estimate (m := (new p q).prepare [w]) hpq rfl hexog
  rw [fit_eq_none_iff]
  constructor
  · rintro ⟨hshape, equations, hequations, rfl, hstable⟩
    obtain ⟨a, ha, rfl⟩ := hsolve.1 hequations
    rw [hstore ha, isStable_lone (Arma.ofOrder_of_estimate hpq ha).1 hexog] at hstable
    exact ⟨a, ⟨(checkShape_lone hpq hcount).1 hshape, ha, hstable⟩, hstore ha⟩
  · rintro ⟨a, ⟨hne, ha, hfinite⟩, rfl⟩
    refine ⟨(checkShape_lone hpq hcount).2 hne, _, hsolve.2 ⟨a, ha, rfl⟩, (hstore ha).symm, ?_⟩
    rw [isStable_lone (Arma.ofOrder_of_estimate hpq ha).1 hexog]
    exact hfinite

def Forecast.SettlesBefore (p q : Nat) (w : List (Exact K)) (horizon : Nat)
    (forecast : Forecast (Exact K)) : Prop :=
  ∃ a : Arma (Exact K), a.Explains p q w.reverse ∧
    forecast.Settles (a.extend w.reverse horizon).reverse

variable {a : Arma (Exact K)} {forecast : Forecast (Exact K)}

theorem Forecast.settles_reverse {values : List (Exact K)} :
    forecast.Settles values.reverse ↔ ∃ f : Forecast (Exact K), f.Settles values ∧
      forecast = ⟨f.point.map List.reverse⟩ := by
  constructor
  · rintro ⟨hfinite, rfl⟩
    rw [List.all_reverse] at hfinite
    exact ⟨_, ⟨hfinite, rfl⟩, rfl⟩
  · rintro ⟨_, ⟨hfinite, rfl⟩, rfl⟩
    exact ⟨by rw [List.all_reverse, hfinite], rfl⟩

theorem SarimaxFit.backcast_lone (hexog : Uncovered exog) {horizon : Nat} (hhorizon : 1 ≤ horizon)
    (before : List (List (Exact K))) :
    (ofArma a w exog).backcast (.plain p q) horizon before = .ok forecast ↔
      forecast.SettlesBefore p q w horizon := by
  have hforecast : ∀ {b : Arma (Exact K)} {f}, b.Explains p q w.reverse →
      ((ofArma b w.reverse exog.reverse).forecastFrom (.plain p q) w.reverse.length horizon [] =
        .ok f ↔ f.Settles (b.extend w.reverse horizon)) := by
    rintro b f ⟨hne, -⟩
    have hpresent : 1 ≤ w.reverse.length := List.length_pos_iff.2 hne
    rw [forecastFrom_lone hpresent le_rfl, List.take_length]
  have hunregressed : ∀ {c : Prop}, (ofArma a w exog).regression.isSome = true → c := by
    rintro c ⟨⟩
  rw [backcast_ok_iff]
  constructor
  · rintro (⟨hzero, -⟩ | ⟨-, -, _, f, hreversed, hf, rfl⟩)
    · omega
    · obtain ⟨b, hb, rfl⟩ := (estimate_lone hexog.reverse).1 hreversed
      obtain ⟨hfinite, rfl⟩ := (hforecast hb).1 hf
      exact ⟨b, hb, by rw [List.all_reverse, hfinite], rfl⟩
  · rintro ⟨b, hb, hsettles⟩
    obtain ⟨f, ⟨hfinite, rfl⟩, rfl⟩ := Forecast.settles_reverse.1 hsettles
    exact Or.inr ⟨by omega, hunregressed, _, _, (estimate_lone hexog.reverse).2 ⟨b, hb, rfl⟩,
      (hforecast hb).2 ⟨hfinite, rfl⟩, rfl⟩

theorem Varmax.backcast_lone (hpq : ¬ (p = 0 ∧ q = 0)) (hexog : Uncovered exog)
    (hcount : exog = [] ∨ exog.length = w.length) (horizon : Nat)
    (before : List (List (Exact K))) :
    (ofArma p q a w exog).backcast horizon before = .ok forecast ↔
      forecast.SettlesBefore p q w horizon := by
  have hcount' : exog.reverse = [] ∨ exog.reverse.length = w.reverse.length := by
    simpa using hcount
  have hforecast : ∀ {b : Arma (Exact K)} {f}, b.Explains p q w.reverse →
      ((ofArma p q b w.reverse exog.reverse).forecast horizon [] = .ok f ↔
        f.Settles (b.extend w.reverse horizon)) := by
    rintro b f ⟨hne, hb, -⟩
    have hpresent : 1 ≤ w.reverse.length := List.length_pos_iff.2 hne
    obtain ⟨horder, -⟩ := Arma.ofOrder_of_estimate hpq hb
    have hfrom : (ofArma p q b w.reverse exog.reverse).forecastFrom w.reverse.length horizon [] =
        .ok f ↔ _ := forecastFrom_lone horder hexog.reverse hpresent le_rfl horizon []
    rwa [List.take_length] at hfrom
  rw [backcast_ok_iff]
  constructor
  · rintro ⟨-, -, _, f, hreversed, hf, rfl⟩
    obtain ⟨b, hb, rfl⟩ := (fit_lone hpq hexog.reverse hcount').1 hreversed
    exact ⟨b, hb, Forecast.settles_reverse.2 ⟨f, (hforecast hb).1 hf, rfl⟩⟩
  · rintro ⟨b, hb, hsettles⟩
    obtain ⟨f, hf, rfl⟩ := Forecast.settles_reverse.1 hsettles
    exact ⟨rfl, fun hwidth => absurd hwidth (lt_irrefl 0), _, f,
      (fit_lone hpq hexog.reverse hcount').2 ⟨b, hb, rfl⟩, (hforecast hb).2 hf, rfl⟩

structure Corresponds (p q n : Nat) (single : Sarimax (Exact K)) (joint : Varmax (Exact K)) :
    Prop where
  arLags : single.arCoefficients.map (·.1) = lagsTo p
  maLags : single.maCoefficients.map (·.1) = lagsTo q
  equation : ∃ f, single.fitted = some f ∧ joint.equations = [⟨f.arma.constant,
    single.arCoefficients.map (·.2) ++ single.maCoefficients.map (·.2)⟩]
  forecastFrom : ∀ k horizon future forecast, 1 ≤ k → k ≤ n →
    (single.forecastFrom k horizon future = .ok forecast ↔
      joint.forecastFrom k horizon future = .ok forecast)
  backcast : ∀ horizon before forecast, 1 ≤ horizon →
    (single.backcast horizon before = .ok forecast ↔
      joint.backcast horizon before = .ok forecast)

/-- A single series without covariates is fitted by both models or by neither. Where it is fitted,
they have the same coefficients and predict the same, ahead of any part of the sample and in front
of it. -/
theorem single_joint_agree (hpq : ¬ (p = 0 ∧ q = 0))
    (hexog : exog = [] ∨ exog = List.replicate w.length []) :
    (((Sarimax.new (.plain p q)).fit [w] exog).2 = none ↔
      ((Varmax.new p q).fit [w] exog).2 = none) ∧
    ∀ single joint, (Sarimax.new (.plain p q)).fit [w] exog = (single, none) →
      (Varmax.new p q).fit [w] exog = (joint, none) → Corresponds p q w.length single joint := by
  have huncovered : Uncovered exog := by
    rcases hexog with rfl | rfl
    · simp [Uncovered]
    · exact fun row hrow => List.eq_of_mem_replicate hrow
  have hcount : exog = [] ∨ exog.length = w.length := hexog.imp_right fun h => by simp [h]
  have fits : ∀ {β : Type} {x : β × Option Error}, x.2 = none ↔ ∃ m, x = (m, none) :=
    ⟨fun h => ⟨_, Prod.ext rfl h⟩, fun ⟨_, h⟩ => by rw [h]⟩
  refine ⟨?_, ?_⟩
  · simp only [fits, Sarimax.fit_lone huncovered, Varmax.fit_lone hpq huncovered hcount]
    constructor
    · rintro ⟨_, a, ha, -⟩
      exact ⟨_, a, ha, rfl⟩
    · rintro ⟨_, a, ha, -⟩
      exact ⟨_, a, ha, rfl⟩
  · intro single joint hsingle hjoint
    obtain ⟨a, ⟨hne, ha, -⟩, rfl⟩ := (Sarimax.fit_lone huncovered).1 hsingle
    obtain ⟨b, ⟨-, hb, -⟩, rfl⟩ := (Varmax.fit_lone hpq huncovered hcount).1 hjoint
    obtain rfl := Except.ok.inj (ha.symm.trans hb)
    obtain ⟨horder, -⟩ := Arma.ofOrder_of_estimate hpq ha
    refine ⟨horder.ar, horder.ma, ⟨_, rfl, rfl⟩, ?_, ?_⟩
    · intro k horizon future forecast hpast hk
      exact (SarimaxFit.forecastFrom_lone hpast hk horizon future).trans
        (Varmax.forecastFrom_lone horder huncovered hpast hk horizon future).symm
    · intro horizon before forecast hhorizon
      exact (SarimaxFit.backcast_lone huncovered hhorizon before).trans
        (Varmax.backcast_lone hpq huncovered hcount horizon before).symm

end Fits

def eightValues : List (Exact ℚ) := [1, 2, 4, 7, 3, 3, 5, 1].map .number

theorem eightValues_agree :
    ((Varmax.new 1 1).fit [eightValues] []).2 = none ∧
      ((Sarimax.new (.plain 1 1)).fit [eightValues] []).2 = none ∧
      ∀ single joint, (Sarimax.new (.plain 1 1)).fit [eightValues] [] = (single, none) →
        (Varmax.new 1 1).fit [eightValues] [] = (joint, none) → Corresponds 1 1 8 single joint := by
  have hfitted : ((Varmax.new 1 1).fit [eightValues] []).2 = none := by decide +kernel
  obtain ⟨hsame, hagree⟩ := single_joint_agree (p := 1) (q := 1) (w := eightValues)
    (by decide) (Or.inl rfl)
  exact ⟨hfitted, hsame.2 hfitted, hagree⟩

end Infill
