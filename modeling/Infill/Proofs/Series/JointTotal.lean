import Infill.Proofs.Series.ArrangedFit

/-! In exact arithmetic with true roots the joint model is fitted to every sample that has enough times
for the regressions of both stages: neither of them fails, and all innovations of the sample are
numbers. -/

namespace Infill.Varmax

open Exact (NumbersOf Numbers)
open LeastSquares (Fit)

def firstTime (p q : Nat) : Nat := if q = 0 then p else max p (2 * max p q + q)

variable {K : Type} [ExactNumber K] {series exog : List (List (Exact K))} {means : List (Exact K)}
  {k n : Nat} {m : Varmax (Exact K)}

namespace Sample

theorem firstStage_total [TrueRoot K] (h : Sample series exog k n)
    (hmeans : NumbersOf series.length means) {p q : Nat}
    (henough : 0 < q → 2 * max p q + (k + 2 * max p q * series.length) < n) :
    ∃ innovations, firstStage means p q series exog n = .ok (innovations, firstTime p q) := by
  unfold firstStage firstTime
  dsimp only
  split_ifs with hq hshort
  · exact ⟨_, rfl⟩
  · have := henough (Nat.pos_of_ne_zero hq)
    omega
  · have hlength := h.length_longRows means (2 * max p q)
    have hlong := henough (Nat.pos_of_ne_zero hq)
    obtain ⟨equations, hfits, -⟩ := LeastSquares.exists_fitAll
      (h.longRows_numbers hmeans (2 * max p q) (2 * max p q)) (h.targets hlength (2 * max p q))
      (by rw [List.length_drop, hlength]; omega)
    rw [longInnovations_eq, hfits]
    exact ⟨_, rfl⟩

theorem solve_total [TrueRoot K] (h : Sample series exog k n)
    (hmeans : NumbersOf series.length m.means)
    (hfirst : 0 < m.q → 2 * max m.p m.q + (k + 2 * max m.p m.q * series.length) < n)
    (hsecond : firstTime m.p m.q + (k + (m.p + m.q) * series.length) < n) :
    ∃ equations, m.solve series exog = .ok equations := by
  obtain ⟨innovations, hstage⟩ := h.firstStage_total hmeans hfirst
  obtain ⟨hlength, hinnovations⟩ := h.firstStage_numbers hmeans hstage
  have hrows := h.length_rows hlength m.means m.p m.q
  obtain ⟨equations, hfits, -⟩ := LeastSquares.exists_fitAll
    (fun row hrow => (h.regressed hmeans m.q hinnovations).rows m.p row (List.mem_of_mem_drop hrow))
    (h.targets hrows (firstTime m.p m.q)) (by rw [List.length_drop, hrows]; omega)
  refine ⟨equations, ?_⟩
  rw [solve_eq, length_head h.present h.lengths, hstage]
  exact (if_neg (by omega)).trans hfits

theorem history_numbers (h : Sample m.endog m.exog k n) (hmeans : NumbersOf m.endog.length m.means)
    (hlength : m.equations.length = m.endog.length)
    (hnumeric : ∀ eq ∈ m.equations, eq.Numeric (k + (m.p + m.q) * m.endog.length)) (length : Nat) :
    ∀ moment ∈ m.history length,
      NumbersOf m.endog.length moment.values ∧ NumbersOf m.endog.length moment.shocks := by
  refine List.foldlRecOn (motive := fun past : List (JointMoment (Exact K)) => ∀ moment ∈ past,
    NumbersOf m.endog.length moment.values ∧ NumbersOf m.endog.length moment.shocks) _ _
      (List.forall_mem_nil _) fun past hpast now hnow => ?_
  obtain ⟨t, ht, rfl⟩ := List.mem_mapIdx.1 hnow
  have hvalues := h.across _ (List.mem_of_mem_take (List.getElem_mem ht))
  rw [List.length_take, h.length_across] at ht
  refine List.forall_mem_cons.2 ⟨⟨hvalues, ?_⟩, hpast⟩
  dsimp only
  split_ifs
  · exact .zeros hvalues.1
  · have hblocks := forall_lagBlocks (p := m.p) (q := m.q) (P := NumbersOf m.endog.length) hmeans
      (.zeros hmeans.1) (fun moment hmoment => (hpast moment hmoment).1)
      fun _ moment hmoment => (hpast moment hmoment).2
    refine shocksOf_numbers hlength hnumeric ?_ hvalues
    rw [regressors_eq]
    exact ((h.covariates (by omega)).append (.flatten hblocks)).2

theorem fit_total [TrueRoot K] (h : Sample series exog k n) (hpq : ¬ (m.p = 0 ∧ m.q = 0))
    (hfirst : 0 < m.q → 2 * max m.p m.q + (k + 2 * max m.p m.q * series.length) < n)
    (hsecond : firstTime m.p m.q + (k + (m.p + m.q) * series.length) < n) :
    (m.fit series exog).2 = none := by
  obtain ⟨equations, hsolve⟩ := h.solve_total (m := m.prepare series) h.means hfirst hsecond
  obtain ⟨hlength, hnumeric⟩ := h.solve_numeric (m := m.prepare series) h.means hsolve
  have hstable : ((m.prepare series).store equations series exog).isStable = true := by
    rw [isStable, List.all_eq_true]
    intro moment hmoment
    have hnumbers := history_numbers (m := (m.prepare series).store equations series exog) h h.means
      hlength hnumeric _ moment hmoment
    exact List.all_eq_true.2 hnumbers.2.2
  rw [fit_eq_none_iff.2 ⟨h.checkShape hpq, equations, hsolve, rfl, hstable⟩]

end Sample

end Infill.Varmax
