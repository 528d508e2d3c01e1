import Infill.Proofs.Linear.Triangle
import Infill.Proofs.Series.JointFit
import Infill.Proofs.Table.Axis
import Infill.Series.Sarimax

/-! The joint model of a single series without covariates has one equation, and both of its stages
regress the same numbers on the same numbers as those of the process with the lags up to its order.
So either both estimates succeed, with the same coefficients, or neither does: where one of them
checks the size of the sample, the other leaves it to the regression. -/

namespace Infill

namespace Past

variable {β γ : Type}

theorem eachAfter_map (g : β → γ) (past xs : List β) :
    eachAfter (past.map g) (xs.map g) = (eachAfter past xs).map fun e => (e.1.map g, g e.2) := by
  induction xs generalizing past with
  | nil => rfl
  | cons x xs ih =>
    rw [List.map_cons, eachAfter, eachAfter, List.map_cons, ← List.map_cons, ih]

theorem each_map (g : β → γ) (xs : List β) :
    each (xs.map g) = (each xs).map fun e => (e.1.map g, g e.2) :=
  eachAfter_map g [] xs

theorem map_snd_each (xs : List β) : (each xs).map (·.2) = xs := by
  have key : ∀ past : List β, (eachAfter past xs).map (·.2) = xs := by
    induction xs with
    | nil => exact fun _ => rfl
    | cons x xs ih => exact fun past => by rw [eachAfter, List.map_cons, ih]
  exact key []

/-- Behind the first points of a series lie as many others. -/
theorem le_length_of_mem_drop {xs : List β} {k : Nat} {e : List β × β}
    (h : e ∈ (each xs).drop k) : k ≤ e.1.length := by
  have key : ∀ (past : List β) (k : Nat), e ∈ (eachAfter past xs).drop k →
      past.length + k ≤ e.1.length := by
    clear h
    induction xs with
    | nil => simp [eachAfter]
    | cons x xs ih =>
      intro past k h
      cases k with
      | zero =>
        rcases List.mem_cons.1 h with rfl | h
        · exact le_rfl
        · have := ih (x :: past) 0 h
          simp only [List.length_cons] at this
          omega
      | succ k =>
        have := ih (x :: past) k h
        simp only [List.length_cons] at this
        omega
  simpa using key [] k h

end Past

theorem mapIdx_const {β γ : Type} (f : β → γ) (xs : List β) : xs.mapIdx (fun _ x => f x) = xs.map f :=
  List.ext_getElem (by simp) (by simp)

def lagsTo (n : Nat) : List Nat := (List.range n).map (· + 1)

@[simp] theorem length_lagsTo (n : Nat) : (lagsTo n).length = n := by simp [lagsTo]

/-- Without seasons the lags of an order are those up to its size. -/
theorem SarimaxOrder.lagSet_plain (n : Nat) : lagSet n 0 0 = lagsTo n := by
  refine Axis.ascending_eq Axis.strict_lt ?_ (by simp [lagsTo])
  simp [lagsTo, List.pairwise_map, List.pairwise_lt_range]

theorem Arma.longest_lagsTo (n : Nat) : longest (lagsTo n) = n := by
  cases n with
  | zero => rfl
  | succ n => simp [longest, lagsTo, List.range_succ]

variable {α : Type}

/-- No covariates: no rows, or rows of none. -/
def Uncovered (exog : List (List α)) : Prop := ∀ row ∈ exog, row = []

namespace Uncovered

variable {exog : List (List α)}

theorem reverse (h : Uncovered exog) : Uncovered exog.reverse :=
  fun row hrow => h row (List.mem_reverse.1 hrow)

theorem head (h : Uncovered exog) : exog.head?.getD [] = [] := by
  cases exog with
  | nil => rfl
  | cons row rest => exact h row (by simp)

theorem covariatesAt (h : Uncovered exog) (t : Nat) : Varmax.covariatesAt exog t = [] := by
  rw [Varmax.covariatesAt, List.getD_eq_getElem?_getD]
  cases hrow : exog[t]? with
  | none => rfl
  | some row => exact h row (List.mem_of_getElem? hrow)

end Uncovered

variable [Scalar α]

open LeastSquares (fitAll_single_iff)

theorem JointMoment.across_single (w : List α) : across [w] = w.map fun x => [x] := by
  refine List.ext_getElem (by simp [across]) fun t ht _ => ?_
  have hlt : t < w.length := by simpa [across] using ht
  simp [across, hlt]

/-- A long autoregression needs more points than coefficients behind the points that it starts from. -/
theorem Arma.length_of_longInnovations {w innovations : List α} {long : Nat}
    (h : longInnovations w long = .ok innovations) : 2 * long < w.length := by
  obtain ⟨fit, hfit, -⟩ := bind_ok_iff.1 h
  have hrows : ∀ row ∈ ((Past.each w).drop long).map fun e => e.1.take long, row.length = long := by
    intro row hrow
    obtain ⟨e, he, rfl⟩ := List.mem_map.1 hrow
    rw [List.length_take, Nat.min_eq_left (Past.le_length_of_mem_drop he)]
  obtain ⟨henough, hvalues, -⟩ := LeastSquares.fit_covers hrows hfit
  rw [← hvalues, List.map_drop, Past.map_snd_each, List.length_drop] at henough
  omega

namespace Varmax

def lone (moment : Arma.Moment α) : JointMoment α := ⟨[moment.1], [moment.2]⟩

theorem regressors_lone (mean : α) (p q : Nat) (past : List (Arma.Moment α)) :
    regressors [mean] p q [] (past.map lone) =
      ((lagsTo p).map fun lag => ((Past.back? past lag).map (·.1)).getD mean) ++
        (lagsTo q).map fun lag => ((Past.back? past lag).map (·.2)).getD 0 := by
  have hvalues : ∀ i, (((past.map lone)[i]?).map (·.values)).getD [mean] =
      [((Past.back? past (i + 1)).map (·.1)).getD mean] := by
    intro i
    rw [Past.back?, List.getElem?_map]
    cases past[i]? <;> rfl
  have hshocks : ∀ i, (((past.map lone)[i]?).map (·.shocks)).getD [0] =
      [((Past.back? past (i + 1)).map (·.2)).getD 0] := by
    intro i
    rw [Past.back?, List.getElem?_map]
    cases past[i]? <;> rfl
  simp only [regressors, List.nil_append, List.map_cons, List.map_nil, hvalues, hshocks,
    ← List.map_eq_flatMap, lagsTo, List.map_map, Function.comp_def]

theorem regressors_long (mean : α) {long : Nat} {past : List α} (h : long ≤ past.length) :
    regressors [mean] long 0 [] (past.map fun x => ⟨[x], []⟩) = past.take long := by
  have hvalues : ∀ i ∈ List.range long,
      (((past.map fun x => JointMoment.mk [x] [])[i]?).map (·.values)).getD [mean] =
        [past.getD i mean] := by
    intro i hi
    rw [List.getElem?_map, List.getD_eq_getElem?_getD]
    cases past[i]? <;> rfl
  rw [regressors, List.flatMap_congr hvalues, ← List.map_eq_flatMap]
  simp only [List.range_zero, List.flatMap_nil, List.nil_append, List.append_nil]
  refine List.ext_getElem (by simp [h]) fun i hi _ => ?_
  have hlt : i < past.length := by
    simp only [List.length_map, List.length_range] at hi
    omega
  simp [hlt]

theorem longInnovations_lone (mean : α) (w : List α) {exog : List (List α)} (hexog : Uncovered exog)
    (long : Nat) {joint : List (List α)} : longInnovations [mean] [w] exog long = .ok joint ↔
      ∃ innovations, Arma.longInnovations w long = .ok innovations ∧
        joint = innovations.map fun e => [e] := by
  have hknown : ((Past.each ((JointMoment.across [w]).map fun values =>
      JointMoment.mk values [])).mapIdx fun t e =>
        (regressors [mean] long 0 (covariatesAt exog t) e.1, e.2.values)).drop long =
      ((Past.each w).drop long).map fun e => (e.1.take long, [e.2]) := by
    simp only [hexog.covariatesAt]
    rw [JointMoment.across_single, List.map_map, Past.each_map, mapIdx_const, List.map_map,
      ← List.map_drop]
    refine List.map_congr_left fun e he => ?_
    exact Prod.ext (regressors_long mean (Past.le_length_of_mem_drop he)) rfl
  have htargets : ((Past.each w).drop long).map (·.2) = w.drop long := by
    rw [List.map_drop, Past.map_snd_each]
  have hjoint : ∀ fit : LeastSquares.Fit α, List.replicate long [(0 : α)] ++
      ((Past.each w).drop long).map (fun e => shocksOf [fit] (e.1.take long) [e.2]) =
      (List.replicate long (0 : α) ++ ((Past.each w).drop long).map fun e =>
        e.2 - fit.predict (e.1.take long)).map fun e => [e] := by
    simp [shocksOf, Function.comp_def]
  unfold longInnovations Arma.longInnovations
  dsimp only
  rw [hknown]
  simp only [bind_ok_iff, pure_ok_iff, List.map_cons, List.map_nil, List.map_map, htargets,
    fitAll_single_iff, Function.comp_def]
  constructor
  · rintro ⟨_, ⟨fit, hfit, rfl⟩, rfl⟩
    exact ⟨_, ⟨fit, hfit, rfl⟩, hjoint fit⟩
  · rintro ⟨_, ⟨fit, hfit, rfl⟩, rfl⟩
    exact ⟨_, ⟨fit, hfit, rfl⟩, hjoint fit⟩

/-- The longer sample that the process asks for in its first stage is what the regression needs. -/
theorem firstStage_lone (mean : α) (p q : Nat) (w : List α) {exog : List (List α)}
    (hexog : Uncovered exog) {joint : List (List α)} {start : Nat} :
    firstStage [mean] p q [w] exog w.length = .ok (joint, start) ↔
      ∃ innovations, Arma.firstStage w (lagsTo p) (lagsTo q) = .ok (innovations, start) ∧
        joint = innovations.map fun e => [e] := by
  unfold firstStage Arma.firstStage
  rw [Arma.longest_lagsTo, Arma.longest_lagsTo]
  by_cases hq : q = 0
  · simp only [hq, if_true, Except.ok.injEq, Prod.mk.injEq]
    constructor
    · rintro ⟨rfl, rfl⟩
      exact ⟨_, ⟨rfl, rfl⟩, by simp⟩
    · rintro ⟨_, ⟨rfl, rfl⟩, rfl⟩
      exact ⟨by simp, rfl⟩
  · dsimp only
    rw [if_neg hq, if_neg hq]
    constructor
    · intro h
      split_ifs at h with hshort
      obtain ⟨_, hjoint, h⟩ := bind_ok_iff.1 h
      obtain ⟨rfl, rfl⟩ := Prod.mk.inj (pure_ok_iff.1 h)
      obtain ⟨innovations, hlong, rfl⟩ := (longInnovations_lone mean w hexog _).1 hjoint
      have henough := Arma.length_of_longInnovations hlong
      refine ⟨innovations, ?_, rfl⟩
      rw [if_neg (by omega), hlong]
      rfl
    · rintro ⟨innovations, h, rfl⟩
      split_ifs at h with hshort
      obtain ⟨_, hlong, h⟩ := bind_ok_iff.1 h
      obtain ⟨rfl, rfl⟩ := Prod.mk.inj (pure_ok_iff.1 h)
      rw [if_neg (by omega), (longInnovations_lone mean w hexog _).2 ⟨_, hlong, rfl⟩]
      rfl

/-- Far enough into the sample no regressor of the joint model is a mean. -/
theorem regressors_known (mean : α) {p : Nat} (q : Nat) {past : List (Arma.Moment α)}
    (h : p ≤ past.length) :
    regressors [mean] p q [] (past.map lone) = Arma.regressors (lagsTo p) (lagsTo q) past := by
  have hvalue : ∀ lag ∈ lagsTo p, ((Past.back? past lag).map (·.1)).getD mean =
      ((Past.back? past lag).map (·.1)).getD 0 := by
    intro lag hlag
    obtain ⟨i, hi, rfl⟩ := List.mem_map.1 hlag
    have hlt : i < past.length := by
      have := List.mem_range.1 hi
      omega
    simp [Past.back?, hlt]
  rw [regressors_lone, Arma.regressors, List.map_congr_left hvalue]

end Varmax

namespace Arma

def laterRows (p q : Nat) (w innovations : List α) (start : Nat) : List (List α) :=
  ((Past.each (w.zip innovations)).drop start).map fun e => regressors (lagsTo p) (lagsTo q) e.1

theorem length_of_mem_laterRows {p q : Nat} {w innovations : List α} {start : Nat} {row : List α}
    (h : row ∈ laterRows p q w innovations start) : row.length = p + q := by
  obtain ⟨e, -, rfl⟩ := List.mem_map.1 h
  simp [regressors]

theorem le_of_firstStage {p q : Nat} {w innovations : List α} {start : Nat}
    (h : firstStage w (lagsTo p) (lagsTo q) = .ok (innovations, start)) : p ≤ start := by
  unfold firstStage at h
  rw [longest_lagsTo, longest_lagsTo] at h
  dsimp only at h
  split_ifs at h
  · obtain ⟨-, rfl⟩ := Prod.mk.inj (Except.ok.inj h)
    exact le_rfl
  · obtain ⟨_, -, h⟩ := bind_ok_iff.1 h
    obtain ⟨-, rfl⟩ := Prod.mk.inj (pure_ok_iff.1 h)
    exact Nat.le_max_left ..

theorem laterRows_covers {p q : Nat} {w innovations : List α} {start : Nat}
    {fit : LeastSquares.Fit α}
    (h : LeastSquares.fit (laterRows p q w innovations start) (w.drop start) = .ok fit) :
    start + (p + q) < w.length ∧ fit.Covers (p + q) := by
  obtain ⟨hmore, hvalues, hcovers⟩ :=
    LeastSquares.fit_covers (fun _ => length_of_mem_laterRows) h
  rw [← hvalues, List.length_drop] at hmore
  exact ⟨by omega, hcovers⟩

/-- The process with the coefficients of a regression, lag by lag. -/
def ofFit (p q : Nat) (mean : α) (fit : LeastSquares.Fit α) : Arma α :=
  ⟨fit.intercept, (lagsTo p).zip fit.coefficients, (lagsTo q).zip (fit.coefficients.drop p), mean⟩

theorem estimate_ok_iff {p q : Nat} (hpq : ¬ (p = 0 ∧ q = 0)) {w : List α} {a : Arma α} :
    estimate w (lagsTo p) (lagsTo q) = .ok a ↔ ∃ innovations start fit,
      firstStage w (lagsTo p) (lagsTo q) = .ok (innovations, start) ∧
      LeastSquares.fit (laterRows p q w innovations start) (w.drop start) = .ok fit ∧
      a = ofFit p q (Scalar.mean w) fit := by
  have hlags : ((lagsTo p).isEmpty && (lagsTo q).isEmpty) = false := by
    simpa [lagsTo, or_iff_not_imp_left] using hpq
  unfold estimate
  dsimp only
  rw [hlags]
  simp only [Bool.false_eq_true, if_false, length_lagsTo]
  constructor
  · intro h
    split_ifs at h with hempty
    obtain ⟨⟨innovations, start⟩, hstage, h⟩ := bind_ok_iff.1 h
    obtain ⟨-, h⟩ := check_ok_iff.1 h
    obtain ⟨fit, hfit, h⟩ := bind_ok_iff.1 h
    exact ⟨innovations, start, fit, hstage, hfit, (pure_ok_iff.1 h).symm⟩
  · rintro ⟨innovations, start, fit, hstage, hfit, rfl⟩
    obtain ⟨hlength, -⟩ := laterRows_covers hfit
    have hempty : ¬ w.isEmpty = true := by
      rintro hw
      rw [List.isEmpty_iff.1 hw, List.length_nil] at hlength
      omega
    rw [if_neg hempty]
    refine bind_ok_iff.2 ⟨_, hstage, check_ok_iff.2 ⟨by omega, bind_ok_iff.2 ⟨fit, hfit, rfl⟩⟩⟩

end Arma

namespace Varmax

/-- Both stages regress the same values on the same numbers. -/
theorem solve_lone {m : Varmax α} {w : List α} (hmeans : m.means = [Scalar.mean w])
    {exog : List (List α)} (hexog : Uncovered exog) {equations : List (LeastSquares.Fit α)} :
    m.solve [w] exog = .ok equations ↔ ∃ innovations start fit,
      Arma.firstStage w (lagsTo m.p) (lagsTo m.q) = .ok (innovations, start) ∧
      LeastSquares.fit (Arma.laterRows m.p m.q w innovations start) (w.drop start) = .ok fit ∧
      equations = [fit] := by
  have hrows : ∀ {innovations : List α} {start : Nat}, m.p ≤ start →
      ((Past.each (List.zipWith JointMoment.mk (JointMoment.across [w])
        (innovations.map fun e => [e]))).mapIdx fun t e =>
          regressors m.means m.p m.q (covariatesAt exog t) e.1).drop start =
        Arma.laterRows m.p m.q w innovations start := by
    intro innovations start hstart
    have hmoments : List.zipWith JointMoment.mk (JointMoment.across [w])
        (innovations.map fun e => [e]) = (w.zip innovations).map lone := by
      rw [JointMoment.across_single, List.zipWith_map, ← List.map_uncurry_zip_eq_zipWith]
      rfl
    simp only [hexog.covariatesAt]
    rw [hmoments, Past.each_map, mapIdx_const, List.map_map, ← List.map_drop, hmeans,
      Arma.laterRows]
    refine List.map_congr_left fun e he => ?_
    exact regressors_known _ _ (hstart.trans (Past.le_length_of_mem_drop he))
  unfold solve
  dsimp only
  constructor
  · intro h
    obtain ⟨⟨joint, start⟩, hstage, h⟩ := bind_ok_iff.1 h
    obtain ⟨-, h⟩ := check_ok_iff.1 h
    rw [hmeans] at hstage
    obtain ⟨innovations, hstage', rfl⟩ := (firstStage_lone _ _ _ _ hexog).1 hstage
    rw [hrows (Arma.le_of_firstStage hstage')] at h
    obtain ⟨fit, hfit, rfl⟩ := fitAll_single_iff.1 h
    exact ⟨innovations, start, fit, hstage', hfit, rfl⟩
  · rintro ⟨innovations, start, fit, hstage, hfit, rfl⟩
    have hstage' := (firstStage_lone (Scalar.mean w) m.p m.q w hexog).2 ⟨_, hstage, rfl⟩
    obtain ⟨hlength, -⟩ := Arma.laterRows_covers hfit
    refine bind_ok_iff.2 ⟨_, by rw [hmeans]; exact hstage', check_ok_iff.2 ⟨?_, ?_⟩⟩
    · simp only [List.head?_cons, Option.getD_some]
      omega
    · rw [hrows (Arma.le_of_firstStage hstage)]
      exact fitAll_single_iff.2 ⟨fit, hfit, rfl⟩

def equationOf (a : Arma α) : LeastSquares.Fit α :=
  ⟨a.constant, a.ar.map (·.2) ++ a.ma.map (·.2)⟩

end Varmax

/-- A process with finite coefficients at all lags of an order. -/
structure Arma.OfOrder (a : Arma α) (p q : Nat) : Prop where
  ar : a.ar.map (·.1) = lagsTo p
  ma : a.ma.map (·.1) = lagsTo q
  finite : ∀ c ∈ a.ar ++ a.ma, Scalar.isFinite c.2 = true

namespace Arma

/-- The coefficients of a regression, given to the lags, make up its equation again. -/
theorem ofFit_ofOrder {p q : Nat} {fit : LeastSquares.Fit α} (h : fit.Covers (p + q)) (mean : α) :
    (ofFit p q mean fit).OfOrder p q ∧ Varmax.equationOf (ofFit p q mean fit) = fit := by
  obtain ⟨intercept, coefficients⟩ := fit
  obtain ⟨ars, mas, rfl, hars⟩ : ∃ ars mas, coefficients = ars ++ mas ∧ ars.length = p :=
    ⟨coefficients.take p, coefficients.drop p, (List.take_append_drop p _).symm, by
      simp only [List.length_take, h.length]
      omega⟩
  have hmas : mas.length = q := by
    have := h.length
    simp only [List.length_append] at this
    omega
  subst hars hmas
  have har := length_lagsTo ars.length
  have hma := length_lagsTo mas.length
  have hzip : (lagsTo ars.length).zip (ars ++ mas) = (lagsTo ars.length).zip ars := by
    have hparts : (lagsTo ars.length ++ []).zip (ars ++ mas) = _ := List.zip_append har
    simpa using hparts
  unfold ofFit
  dsimp only
  rw [List.drop_left, hzip]
  refine ⟨⟨List.map_fst_zip har.le, List.map_fst_zip hma.le, ?_⟩, ?_⟩
  · intro c hc
    refine h.finite c.2 (List.mem_append.2 ?_)
    exact (List.mem_append.1 hc).imp (fun hc => (List.of_mem_zip hc).2)
      fun hc => (List.of_mem_zip hc).2
  · rw [Varmax.equationOf, List.map_snd_zip har.ge, List.map_snd_zip hma.ge]

theorem ofOrder_of_estimate {p q : Nat} (hpq : ¬ (p = 0 ∧ q = 0)) {w : List α} {a : Arma α}
    (h : estimate w (lagsTo p) (lagsTo q) = .ok a) : a.OfOrder p q ∧ a.mean = Scalar.mean w := by
  obtain ⟨innovations, start, fit, -, hfit, rfl⟩ := (estimate_ok_iff hpq).1 h
  exact ⟨(ofFit_ofOrder (laterRows_covers hfit).2 _).1, rfl⟩

end Arma

/-- The joint model finds the equation of the process that the single model finds. -/
theorem Varmax.solve_eq_estimate {m : Varmax α} (hpq : ¬ (m.p = 0 ∧ m.q = 0)) {w : List α}
    (hmeans : m.means = [Scalar.mean w]) {exog : List (List α)} (hexog : Uncovered exog)
    {equations : List (LeastSquares.Fit α)} : m.solve [w] exog = .ok equations ↔
      ∃ a, Arma.estimate w (lagsTo m.p) (lagsTo m.q) = .ok a ∧ equations = [equationOf a] := by
  have hequation : ∀ {innovations start fit},
      LeastSquares.fit (Arma.laterRows m.p m.q w innovations start) (w.drop start) = .ok fit →
        equationOf (Arma.ofFit m.p m.q (Scalar.mean w) fit) = fit :=
    fun hfit => (Arma.ofFit_ofOrder (Arma.laterRows_covers hfit).2 _).2
  rw [solve_lone hmeans hexog]
  constructor
  · rintro ⟨innovations, start, fit, hstage, hfit, rfl⟩
    exact ⟨_, (Arma.estimate_ok_iff hpq).2 ⟨innovations, start, fit, hstage, hfit, rfl⟩,
      by rw [hequation hfit]⟩
  · rintro ⟨a, ha, rfl⟩
    obtain ⟨innovations, start, fit, hstage, hfit, rfl⟩ := (Arma.estimate_ok_iff hpq).1 ha
    exact ⟨innovations, start, fit, hstage, hfit, by rw [hequation hfit]⟩

end Infill
