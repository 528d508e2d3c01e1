import Infill.Proofs.Series.Continuation
import Infill.Proofs.Series.LoneForecast
import Infill.Proofs.Series.StrictVarmax

/-! Estimation in two stages. The lags of an order are positive and ascend, so that the last of them is
the longest and both stages keep within the data. In exact arithmetic with true roots a regression on
enough rows has a fit: an estimate fails for the length of its series and for nothing else. -/

namespace Infill

open Exact (number Numbers NumbersOf)

/-- The lags 1 to `regular` and the first `seasonal` multiples of the period, as far as they are not 0,
ascending and each of them once. -/
structure SeasonalLags (regular seasonal period : Nat) (lags : List Nat) : Prop where
  ascending : lags.Pairwise (· < ·)
  mem_iff : ∀ lag, lag ∈ lags ↔ 0 < lag ∧ (lag ≤ regular ∨ ∃ j ≤ seasonal, lag = j * period)

theorem SeasonalLags.lags {regular seasonal period : Nat} {lags : List Nat}
    (h : SeasonalLags regular seasonal period lags) : Lags lags :=
  ⟨h.ascending, fun lag hlag => ((h.mem_iff lag).1 hlag).1⟩

theorem SarimaxOrder.lagSet_seasonal (regular seasonal period : Nat) :
    SeasonalLags regular seasonal period (lagSet regular seasonal period) where
  ascending := by
    rw [lagSet]
    simpa only [decide_eq_true_eq] using Axis.pairwise_ascending Axis.strict_lt _
  mem_iff lag := by
    have hregular : lag ∈ (List.range regular).map (· + 1) ↔ 0 < lag ∧ lag ≤ regular := mem_lagsTo
    have hseasonal : lag ∈ (if 0 < period then
        (List.range seasonal).map fun j => (j + 1) * period else []) ↔
          0 < lag ∧ ∃ j ≤ seasonal, lag = j * period := by
      split_ifs with hperiod
      · rw [List.mem_map]
        constructor
        · rintro ⟨j, hj, rfl⟩
          exact ⟨Nat.mul_pos j.succ_pos hperiod, j + 1, List.mem_range.1 hj, rfl⟩
        · rintro ⟨hpos, j, hj, rfl⟩
          obtain ⟨i, rfl⟩ := Nat.exists_eq_succ_of_ne_zero (Nat.pos_of_mul_pos_right hpos).ne'
          exact ⟨i, List.mem_range.2 hj, rfl⟩
      · refine iff_of_false List.not_mem_nil ?_
        rintro ⟨hpos, j, -, rfl⟩
        exact hperiod (Nat.pos_of_mul_pos_left hpos)
    rw [lagSet, Axis.mem_ascending, List.mem_append, hregular, hseasonal]
    tauto

variable {K : Type} [ExactNumber K]

theorem LeastSquares.exists_fit [TrueRoot K] {rows : List (List (Exact K))} {y : List (Exact K)}
    {k : Nat} (hrows : ∀ row ∈ rows, NumbersOf k row) (hy : NumbersOf rows.length y)
    (henough : k < rows.length) : ∃ f, fit rows y = .ok f ∧ f.Numeric k := by
  have htargets : ∀ target ∈ [y], NumbersOf rows.length target := by simpa using hy
  obtain ⟨fits, hfits, -, hnumeric⟩ := exists_fitAll hrows htargets henough
  obtain ⟨f, hf, rfl⟩ := fitAll_single_iff.1 hfits
  exact ⟨f, hf, hnumeric f List.mem_cons_self⟩

namespace Arma

variable {w innovations : List (Exact K)} {arLags maLags : List Nat}

theorem longRows_numbers (hw : Numbers w) (long : Nat) :
    ∀ row ∈ longRows w long, NumbersOf long row := by
  refine List.forall_mem_map.2 fun t ht => ⟨?_, fun x hx => ?_⟩
  · obtain ⟨hlong, hlt⟩ := mem_timesFrom.1 ht
    rw [List.length_take, List.length_reverse, List.length_take_of_le hlt.le,
      Nat.min_eq_left hlong]
  · exact hw x (List.mem_of_mem_take (List.mem_reverse.1 (List.mem_of_mem_take hx)))

theorem exists_longInnovations [TrueRoot K] (hw : Numbers w) {long : Nat}
    (hlong : 2 * long < w.length) :
    ∃ innovations, longInnovations w long = .ok innovations ∧ Numbers innovations := by
  have hrows := longRows_numbers hw long
  have hpoints : NumbersOf (longRows w long).length (w.drop long) := by
    rw [length_longRows]
    exact NumbersOf.drop ⟨rfl, hw⟩ long
  have henough : long < (longRows w long).length := by
    rw [length_longRows]
    omega
  obtain ⟨fit, hfit, hnumeric⟩ := LeastSquares.exists_fit hrows hpoints henough
  have hpredicted : Numbers ((longRows w long).map fit.predict) :=
    List.forall_mem_map.2 fun row hrow => hnumeric.predict (hrows row hrow).2
  refine ⟨_, by rw [longInnovations_eq, hfit]; rfl,
    List.forall_mem_append.2 ⟨Exact.numbers_zeros long, ?_⟩⟩
  rw [← List.zipWith_map_right]
  exact hpoints.2.zipWith hpredicted Exact.isFinite_sub

theorem regressors_numbers {past : List (Moment (Exact K))} (hpast : NumericPast past) :
    NumbersOf (arLags.length + maLags.length) (regressors arLags maLags past) := by
  refine ⟨by simp [regressors], List.forall_mem_append.2
    ⟨List.forall_mem_map.2 fun lag _ => ?_, List.forall_mem_map.2 fun lag _ => ?_⟩⟩
  · cases hback : Past.back? past lag with
    | none => rfl
    | some moment => exact (hpast moment (Past.mem_of_back? hback)).1
  · cases hback : Past.back? past lag with
    | none => rfl
    | some moment => exact (hpast moment (Past.mem_of_back? hback)).2

theorem secondRows_numbers (hw : Numbers w) (hinnovations : Numbers innovations) (start : Nat) :
    ∀ row ∈ secondRows arLags maLags (w.zip innovations) start,
      NumbersOf (arLags.length + maLags.length) row := by
  refine List.forall_mem_map.2 fun t _ => regressors_numbers fun moment hmoment => ?_
  have hmem := List.of_mem_zip (List.mem_of_mem_take (List.mem_reverse.1 hmoment))
  exact ⟨hw _ hmem.1, hinnovations _ hmem.2⟩

theorem exists_firstStage [TrueRoot K] (hma : Lags maLags) (hw : Numbers w)
    (hlong : maLags ≠ [] → 2 * longLag arLags maLags < w.length) :
    ∃ innovations start, firstStage w arLags maLags = .ok (innovations, start) ∧
      Numbers innovations := by
  unfold firstStage
  dsimp only
  split_ifs with hnone hshort
  · exact ⟨_, _, rfl, Exact.numbers_zeros _⟩
  · have := hlong (mt hma.longest_eq_zero_iff.2 hnone)
    exact absurd hshort (by rw [longLag] at this; omega)
  · obtain ⟨innovations, hok, hnumbers⟩ :=
      exists_longInnovations hw (hlong (mt hma.longest_eq_zero_iff.2 hnone))
    rw [longLag] at hok
    exact ⟨innovations, _, by rw [hok]; rfl, hnumbers⟩

/-- A series of numbers that is long enough for both stages has an estimate. -/
theorem exists_estimate [TrueRoot K] (hma : Lags maLags) (hw : Numbers w)
    (hlong : maLags ≠ [] → 2 * longLag arLags maLags < w.length)
    (henough : secondStart arLags maLags + (arLags.length + maLags.length + 1) ≤ w.length) :
    ∃ a, estimate w arLags maLags = .ok a := by
  have hpresent : w ≠ [] := List.ne_nil_of_length_pos (by omega)
  by_cases hlags : arLags = [] ∧ maLags = []
  · obtain ⟨rfl, rfl⟩ := hlags
    simp [estimate, hpresent]
  obtain ⟨innovations, start, hstage, hnumbers⟩ := exists_firstStage hma hw hlong
  obtain ⟨rfl, hlength, -⟩ := firstStage_ok hma hstage
  have hrows : (secondRows arLags maLags (w.zip innovations) (secondStart arLags maLags)).length =
      w.length - secondStart arLags maLags := length_secondRows hlength _
  have hpoints : NumbersOf (secondRows arLags maLags (w.zip innovations)
      (secondStart arLags maLags)).length (w.drop (secondStart arLags maLags)) := by
    rw [hrows]
    exact NumbersOf.drop ⟨rfl, hw⟩ _
  obtain ⟨fit, hfit, -⟩ :=
    LeastSquares.exists_fit (secondRows_numbers hw hnumbers _) hpoints (by omega)
  refine ⟨ofRegression arLags maLags (Scalar.mean w) fit, ?_⟩
  rw [estimate_eq hpresent hlags, hstage]
  change (if _ then _ else _) = _
  rw [if_neg (by dsimp only; omega), hfit]
  rfl

/-- In no arithmetic is there an estimate for a series that is too short. -/
theorem estimate_short {α : Type} [Scalar α] {w : List α} (hma : Lags maLags)
    (h : w.length = 0 ∨ (maLags ≠ [] ∧ w.length ≤ 2 * longLag arLags maLags) ∨
      w.length < secondStart arLags maLags + (arLags.length + maLags.length + 1)) :
    ∃ e, estimate w arLags maLags = .error e := by
  by_cases hw : w = []
  · subst hw
    exact ⟨_, rfl⟩
  have hpos := List.length_pos_iff.2 hw
  have hlags : ¬ (arLags = [] ∧ maLags = []) := by
    rintro ⟨rfl, rfl⟩
    rcases h with hzero | ⟨hne, -⟩ | hfew
    · omega
    · exact hne rfl
    · exact absurd (show w.length < 1 from hfew) (by omega)
  rw [estimate_eq hw hlags]
  cases hstage : firstStage w arLags maLags with
  | error e => exact ⟨e, rfl⟩
  | ok stage =>
    obtain ⟨innovations, start⟩ := stage
    obtain ⟨rfl, -, estimated, hstrict, -⟩ := firstStage_ok hma hstage
    rcases h with hzero | ⟨hne, hshort⟩ | hfew
    · omega
    · unfold strictFirstStage at hstrict
      dsimp only at hstrict
      rw [if_neg (mt List.isEmpty_iff.1 hne), if_pos hshort] at hstrict
      cases hstrict
    · exact ⟨_, if_pos hfew⟩

/-- In exact arithmetic an estimate fails for the length of its series alone. -/
theorem estimate_fails_iff [TrueRoot K] (hma : Lags maLags) (hw : Numbers w) :
    (∃ e, estimate w arLags maLags = .error e) ↔
      w.length = 0 ∨ (maLags ≠ [] ∧ w.length ≤ 2 * longLag arLags maLags) ∨
        w.length < secondStart arLags maLags + (arLags.length + maLags.length + 1) := by
  refine ⟨?_, estimate_short hma⟩
  rintro ⟨e, he⟩
  by_contra hlong
  push Not at hlong
  obtain ⟨-, hlong, henough⟩ := hlong
  obtain ⟨a, ha⟩ := exists_estimate hma hw hlong henough
  cases he.symm.trans ha

end Arma

/-- Whatever the order, the arithmetic and the data, the lags are those of the order, and an estimate in
two stages is the one that reads points of the sample and estimated innovations only: the process of a
single series, both of whose regressions have as many rows as parameters, and the joint model. In
exact arithmetic the process has an estimate unless its series is too short. -/
theorem stages_read_data {α : Type} [Scalar α] {K : Type} [ExactNumber K] [TrueRoot K] :
    (∀ o : SarimaxOrder, SeasonalLags o.p o.seasonalP o.period o.arLags ∧
      SeasonalLags o.q o.seasonalQ o.period o.maLags) ∧
    (∀ (o : SarimaxOrder) (w : List α), Arma.strictEstimate w o.arLags o.maLags =
      Stop.ofErrors (Arma.estimate w o.arLags o.maLags)) ∧
    (∀ (m : Varmax α) (series exog : List (List α)), m.strictFit series exog =
      ((m.fit series exog).1, (m.fit series exog).2.map .error)) ∧
    ∀ (o : SarimaxOrder) (w : List K),
      (∃ e, Arma.estimate (w.map number) o.arLags o.maLags = .error e) ↔
        w.length = 0 ∨
        (o.maLags ≠ [] ∧
          w.length ≤ 4 * max (Arma.longest o.arLags) (Arma.longest o.maLags)) ∨
        w.length <
          Arma.secondStart o.arLags o.maLags + (o.arLags.length + o.maLags.length + 1) := by
  have hlags : ∀ o : SarimaxOrder, SeasonalLags o.p o.seasonalP o.period o.arLags ∧
      SeasonalLags o.q o.seasonalQ o.period o.maLags :=
    fun o => ⟨SarimaxOrder.lagSet_seasonal .., SarimaxOrder.lagSet_seasonal ..⟩
  refine ⟨hlags, fun o w => ?_, Varmax.strictFit_eq, fun o w => ?_⟩
  · obtain ⟨har, hma⟩ := hlags o
    exact Arma.strictEstimate_eq har.lags hma.lags w
  · have hfails : (∃ e, Arma.estimate (w.map number) o.arLags o.maLags = .error e) ↔ _ :=
      Arma.estimate_fails_iff (hlags o).2.lags (Exact.numbers_map w)
    rwa [List.length_map, Arma.longLag, ← Nat.mul_assoc] at hfails

/-- One lag of the points, and the first and the third innovation back: an estimate of these takes
thirteen points. The joint model of both kinds is fitted to eight values. -/
theorem thirteenPoints_estimated :
    let o : SarimaxOrder := ⟨1, 0, 1, 0, 0, 1, 3⟩
    3 ∈ o.maLags ∧
      ((Varmax.new 1 1).strictFit [eightValues] []).2.isNone = true ∧
      (∀ w : List ℝ, w.length = 12 → ∃ e, Arma.estimate (w.map number) o.arLags o.maLags = .error e) ∧
      ∀ w : List ℝ, w.length = 13 → ∃ a, Arma.estimate (w.map number) o.arLags o.maLags = .ok a := by
  intro o
  obtain ⟨hlags, -, hjoint, hfails⟩ := stages_read_data (α := Exact ℚ) (K := ℝ)
  have har : o.arLags = [1] := by decide
  have hma : o.maLags = [1, 3] := by decide
  refine ⟨((hlags o).2.mem_iff 3).2 ⟨by decide, Or.inr ⟨1, by decide, rfl⟩⟩, ?_, fun w hw => ?_,
    fun w hw => ?_⟩
  · have hfitted : ((Varmax.new 1 1).fit [eightValues] []).2.isNone = true := by decide +kernel
    rw [hjoint, Option.isNone_map, hfitted]
  · rw [hfails, har, hma, hw]
    decide
  · cases hestimate : Arma.estimate (w.map number) o.arLags o.maLags with
    | ok a => exact ⟨a, rfl⟩
    | error e =>
      have hshort := (hfails o w).1 ⟨e, hestimate⟩
      rw [har, hma, hw] at hshort
      exact absurd hshort (by decide)

end Infill
