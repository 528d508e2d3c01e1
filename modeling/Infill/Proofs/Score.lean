import Infill.Proofs.Scalar.Exact
import Infill.Proofs.Scalar.SquaredError
import Infill.Proofs.Success
import Infill.Score

/-! Scores in exact arithmetic. The residual squares are zero for an exact prediction only, and the
squares around the mean only where the actual values do not vary, which is the case that the score sets
apart; so it is 1 where every value is met, and below 1 anywhere else. A change of the unit or of the
origin of both series multiplies both sums of squares alike. An average of scores is 1 only if each of
them is. -/

namespace Infill.Score

open Exact (number)

section Success

variable {α : Type} [Scalar α]

theorem exists_r2_iff {actual predicted : List α} :
    (∃ score, r2 actual predicted = .ok score) ↔ actual.length = predicted.length := by
  unfold r2
  split_ifs with hlength hshort
  · simpa using hlength
  · simpa using hlength
  · simpa using hlength

theorem r2Average_ok_iff {actual predicted : List (List α)} {score : α} :
    r2Average actual predicted = .ok score ↔ actual ≠ [] ∧ actual.length = predicted.length ∧
      ∃ scores, (actual.zip predicted).mapM (fun (a, p) => r2 a p) = .ok scores ∧
        Scalar.mean scores = score := by
  have hshape : (actual.isEmpty || actual.length ≠ predicted.length) = true ↔
      ¬ (actual ≠ [] ∧ actual.length = predicted.length) := by
    simp [imp_iff_not_or]
  rw [← and_assoc, r2Average]
  split_ifs with h
  · exact iff_of_false (by rintro ⟨⟩) fun hboth => hshape.1 h hboth.1
  · rw [and_iff_right (not_not.1 fun hnot => h (hshape.2 hnot))]
    simp only [bind_ok_iff, pure_ok_iff]

theorem exists_r2Average_iff {actual predicted : List (List α)} :
    (∃ score, r2Average actual predicted = .ok score) ↔
      actual ≠ [] ∧ List.Forall₂ (fun a p => a.length = p.length) actual predicted := by
  simp only [r2Average_ok_iff, List.forall₂_iff_zip]
  constructor
  · rintro ⟨_, hne, hlength, scores, hscores, -⟩
    refine ⟨hne, hlength, fun hin => ?_⟩
    obtain ⟨score, -, hscore⟩ := forall₂_mem_left (mapM_ok_iff.1 hscores) hin
    exact exists_r2_iff.1 ⟨score, hscore⟩
  · rintro ⟨hne, hlength, hin⟩
    obtain ⟨scores, hscores⟩ := mapM_total fun series hseries => exists_r2_iff.2 (hin hseries)
    exact ⟨_, hne, hlength, scores, hscores, rfl⟩

/-- `tail` is what the last `n` places of `xs` hold, or all of `xs` where it has no more. -/
structure EndsIn (n : Nat) (xs tail : List α) : Prop where
  suffix : tail <:+ xs
  length : tail.length = min n xs.length

omit [Scalar α] in
theorem endsIn_lastValues (n : Nat) (xs : List α) : EndsIn n xs (lastValues n xs) := by
  refine ⟨List.drop_suffix _ _, ?_⟩
  rw [lastValues, List.length_drop]
  omega

omit [Scalar α] in
theorem ends_lastValues (n : Nat) (series : List (List α)) :
    List.Forall₂ (EndsIn n) series (series.map (lastValues n)) := by
  rw [List.forall₂_map_right_iff, List.forall₂_same]
  exact fun xs _ => endsIn_lastValues n xs

theorem holdout_ok_iff {actual predicted : List (List α)} {n : Nat} {h : Holdout α} :
    holdout actual predicted n = .ok h ↔ r2Average actual predicted = .ok h.r2 ∧
      r2Average (actual.map (lastValues n)) (predicted.map (lastValues n)) = .ok h.accuracy := by
  simp only [holdout, bind_ok_iff, pure_ok_iff]
  constructor
  · rintro ⟨whole, hwhole, tail, htail, rfl⟩
    exact ⟨hwhole, htail⟩
  · rintro ⟨hwhole, htail⟩
    exact ⟨h.r2, hwhole, h.accuracy, htail, rfl⟩

/-- The ends of series that can be scored can be scored. -/
theorem exists_r2Average_tails {actual predicted : List (List α)} {score : α}
    (h : r2Average actual predicted = .ok score) (n : Nat) :
    ∃ accuracy, r2Average (actual.map (lastValues n)) (predicted.map (lastValues n)) =
      .ok accuracy := by
  obtain ⟨hne, hlengths⟩ := exists_r2Average_iff.1 ⟨score, h⟩
  refine exists_r2Average_iff.2 ⟨by simpa using hne, ?_⟩
  rw [List.forall₂_map_left_iff, List.forall₂_map_right_iff]
  refine hlengths.imp fun a p hlength => ?_
  rw [(endsIn_lastValues n a).length, (endsIn_lastValues n p).length, hlength]

/-- What can be scored as a whole can be scored at its end. -/
theorem exists_holdout_iff {actual predicted : List (List α)} {n : Nat} :
    (∃ h, holdout actual predicted n = .ok h) ↔
      ∃ score, r2Average actual predicted = .ok score := by
  simp only [holdout_ok_iff]
  constructor
  · rintro ⟨h, hwhole, -⟩
    exact ⟨h.r2, hwhole⟩
  · rintro ⟨score, hwhole⟩
    obtain ⟨accuracy, htail⟩ := exists_r2Average_tails hwhole n
    exact ⟨⟨score, accuracy⟩, hwhole, htail⟩

end Success

section Numbers

variable {K : Type} [ExactNumber K] {actual predicted : List K}

theorem totalSquares_numbers (h : actual ≠ []) :
    totalSquares (actual.map number) = number (squaredError actual) := by
  rw [totalSquares, Exact.mean_numbers h, List.map_map]
  exact Exact.sum_squares (· - actual.sum / actual.length) actual

theorem residualSquares_numbers (actual predicted : List K) :
    residualSquares (actual.map number) (predicted.map number) =
      number (squaresBetween actual predicted) := by
  rw [residualSquares, List.zipWith_map, ← List.map_uncurry_zip_eq_zipWith]
  exact Exact.sum_squares (fun pair => pair.1 - pair.2) (actual.zip predicted)

def determination (actual predicted : List K) : K :=
  if squaredError actual = 0 then if squaresBetween actual predicted = 0 then 1 else 0
  else 1 - squaresBetween actual predicted / squaredError actual

theorem r2_numbers (hlength : actual.length = predicted.length) (hlong : 2 ≤ actual.length) :
    r2 (actual.map number) (predicted.map number) = .ok (number (determination actual predicted)) := by
  have hne : actual ≠ [] := by
    rintro rfl
    simp at hlong
  have hbeq : ∀ x : K, ((number x : Exact K) == 0) = decide (x = 0) := fun _ => rfl
  unfold r2 determination
  rw [List.length_map, List.length_map, if_neg (not_not.2 hlength), if_neg (Nat.not_lt.2 hlong)]
  simp only [totalSquares_numbers hne, residualSquares_numbers, hbeq, decide_eq_true_eq]
  split_ifs with htotal hresidual
  · rfl
  · rfl
  · rw [Exact.number_div htotal]
    rfl

theorem determination_le_one (actual predicted : List K) : determination actual predicted ≤ 1 := by
  unfold determination
  split_ifs
  · exact le_rfl
  · exact zero_le_one
  · have hratio : 0 ≤ squaresBetween actual predicted / squaredError actual :=
      div_nonneg (squaresBetween_nonneg _ _) (squaredError_nonneg _)
    linarith

theorem determination_eq_one_iff (hlength : actual.length = predicted.length) :
    determination actual predicted = 1 ↔ predicted = actual := by
  rw [eq_comm (a := predicted), ← squaresBetween_eq_zero_iff hlength]
  unfold determination
  split_ifs with htotal hresidual
  · exact iff_of_true rfl hresidual
  · exact iff_of_false zero_ne_one hresidual
  · rw [sub_eq_self, div_eq_zero_iff, or_iff_left htotal]

theorem determination_mean (hlength : actual.length = predicted.length)
    (hvaries : ∃ x ∈ actual, ∃ y ∈ actual, x ≠ y)
    (hmean : ∀ p ∈ predicted, p = actual.sum / actual.length) :
    determination actual predicted = 0 := by
  obtain ⟨x, hx, y, hy, hne⟩ := hvaries
  have htotal := squaredError_ne_zero hx hy hne
  have hpredicted : predicted = List.replicate actual.length (actual.sum / actual.length) :=
    List.eq_replicate_iff.2 ⟨hlength.symm, hmean⟩
  rw [determination, if_neg htotal, hpredicted, squaresBetween_replicate, ← squaredError,
    div_self htotal, sub_self]

/-- The unit and the origin of the values do not matter. -/
theorem determination_affine {a : K} (ha : a ≠ 0) (b : K) (actual predicted : List K) :
    determination (actual.map (a * · + b)) (predicted.map (a * · + b)) =
      determination actual predicted := by
  have hsquare : a ^ 2 ≠ 0 := pow_ne_zero 2 ha
  unfold determination
  rw [squaredError_affine, squaresBetween_affine, mul_div_mul_left _ _ hsquare]
  simp only [mul_eq_zero, hsquare, false_or]

structure Scorable (actual predicted : List K) : Prop where
  length : actual.length = predicted.length
  two_le : 2 ≤ actual.length

def determinations (actual predicted : List (List K)) : List K :=
  (actual.zip predicted).map fun series => determination series.1 series.2

section Several

variable {actual predicted : List (List K)}

theorem determinations_le_one : ∀ s ∈ determinations actual predicted, s ≤ 1 := by
  intro s hs
  obtain ⟨series, -, rfl⟩ := List.mem_map.1 hs
  exact determination_le_one _ _

theorem determinations_all_one_iff (h : List.Forall₂ Scorable actual predicted) :
    (∀ s ∈ determinations actual predicted, s = 1) ↔ predicted = actual := by
  induction h with
  | nil => simp [determinations]
  | cons hfirst _ ih =>
    rw [determinations, List.zip_cons_cons, List.map_cons, List.forall_mem_cons,
      determination_eq_one_iff hfirst.length, ← determinations, ih, List.cons.injEq]

theorem mapM_r2_numbers (h : List.Forall₂ Scorable actual predicted) :
    ((actual.map (·.map number)).zip (predicted.map (·.map number))).mapM
      (fun (a, p) => r2 a p) = .ok ((determinations actual predicted).map number) := by
  rw [mapM_ok_iff]
  induction h with
  | nil => exact .nil
  | cons hfirst _ ih => exact .cons (r2_numbers hfirst.length hfirst.two_le) ih

theorem determinations_ne_nil (hne : actual ≠ []) (h : List.Forall₂ Scorable actual predicted) :
    determinations actual predicted ≠ [] := by
  cases h with
  | nil => exact absurd rfl hne
  | cons => exact List.cons_ne_nil _ _

theorem r2Average_numbers (hne : actual ≠ []) (h : List.Forall₂ Scorable actual predicted) :
    r2Average (actual.map (·.map number)) (predicted.map (·.map number)) =
      .ok (number ((determinations actual predicted).sum /
        (determinations actual predicted).length)) := by
  rw [← Exact.mean_numbers (determinations_ne_nil hne h), r2Average_ok_iff]
  exact ⟨by simpa using hne, by simpa using h.length_eq, _, mapM_r2_numbers h, rfl⟩

end Several

section Averages

variable {scores : List K}

theorem average_le_one (hne : scores ≠ []) (h : ∀ s ∈ scores, s ≤ 1) :
    scores.sum / scores.length ≤ 1 := by
  rw [div_le_one (Nat.cast_pos.2 (List.length_pos_iff.2 hne))]
  simpa using List.sum_le_card_nsmul scores 1 h

/-- Numbers that are at most 1 add up to their count only if all of them are 1. -/
theorem sum_eq_length_iff (h : ∀ s ∈ scores, s ≤ 1) :
    scores.sum = scores.length ↔ ∀ s ∈ scores, s = 1 := by
  induction scores with
  | nil => simp
  | cons s scores ih =>
    rw [List.forall_mem_cons] at h
    have hrest : scores.sum ≤ scores.length := by
      simpa using List.sum_le_card_nsmul scores 1 h.2
    rw [List.sum_cons, List.length_cons, List.forall_mem_cons, ← ih h.2]
    push_cast
    constructor
    · intro hsum
      exact ⟨by linarith, by linarith⟩
    · rintro ⟨hs, hsum⟩
      linarith

theorem average_eq_one_iff (hne : scores ≠ []) (h : ∀ s ∈ scores, s ≤ 1) :
    scores.sum / scores.length = 1 ↔ ∀ s ∈ scores, s = 1 := by
  have hlength : (scores.length : K) ≠ 0 := by simpa using hne
  rw [div_eq_one_iff_eq hlength, sum_eq_length_iff h]

end Averages

/-- The score of a series is at most 1, is 1 for an exact prediction only and 0 for the mean of values
that vary, and does not depend on the unit and the origin. The average over several series is at most 1
as well, and is 1 only if every series is predicted exactly. What is held out is scored as a whole and
once more at its end. -/
theorem r2_laws {α : Type} [Scalar α] :
    (∀ actual predicted : List K, Scorable actual predicted →
      ∃ s, r2 (actual.map number) (predicted.map number) = .ok (number s) ∧
        s ≤ 1 ∧ (s = 1 ↔ predicted = actual) ∧
        ((∃ x ∈ actual, ∃ y ∈ actual, x ≠ y) →
          (∀ p ∈ predicted, p = actual.sum / actual.length) → s = 0) ∧
        ∀ a b : K, a ≠ 0 → r2 ((actual.map (a * · + b)).map number)
          ((predicted.map (a * · + b)).map number) = .ok (number s)) ∧
    (∀ actual predicted : List (List K), actual ≠ [] → List.Forall₂ Scorable actual predicted →
      ∃ s, r2Average (actual.map (·.map number)) (predicted.map (·.map number)) = .ok (number s) ∧
        s ≤ 1 ∧ (s = 1 ↔ predicted = actual)) ∧
    (∀ (actual predicted : List (List α)) (n : Nat), ∃ tails predictedTails,
      List.Forall₂ (EndsIn n) actual tails ∧ List.Forall₂ (EndsIn n) predicted predictedTails ∧
      (∀ h, holdout actual predicted n = .ok h ↔ r2Average actual predicted = .ok h.r2 ∧
        r2Average tails predictedTails = .ok h.accuracy) ∧
      ((∃ h, holdout actual predicted n = .ok h) ↔
        ∃ score, r2Average actual predicted = .ok score)) := by
  refine ⟨fun actual predicted h => ?_, fun actual predicted hne h => ?_,
    fun actual predicted n => ?_⟩
  · refine ⟨_, r2_numbers h.length h.two_le, determination_le_one _ _,
      determination_eq_one_iff h.length, determination_mean h.length, fun a b ha => ?_⟩
    rw [r2_numbers (by simpa using h.length) (by simpa using h.two_le), determination_affine ha]
  · have hsome := determinations_ne_nil hne h
    refine ⟨_, r2Average_numbers hne h, average_le_one hsome determinations_le_one, ?_⟩
    rw [average_eq_one_iff hsome determinations_le_one, determinations_all_one_iff h]
  · refine ⟨_, _, ends_lastValues n actual, ends_lastValues n predicted, fun h => holdout_ok_iff,
      exists_holdout_iff⟩

end Numbers

def fourValues : List ℚ := [1, 2, 3, 4]

def fourMeans : List ℚ := [5 / 2, 5 / 2, 5 / 2, 5 / 2]

/-- The values themselves score 1 and their mean 0, after a change of the unit as well; one inexact
series keeps the average below 1, and the ends of the two are scored too. -/
theorem fourValues_scored :
    r2 (fourValues.map number) (fourValues.map number) = .ok (number 1) ∧
    r2 ((fourValues.map (-2 * · + 32)).map number) ((fourMeans.map (-2 * · + 32)).map number) =
      .ok (number 0) ∧
    (∃ s : ℚ, r2Average ([fourValues, fourValues].map (·.map number))
      ([fourValues, fourMeans].map (·.map number)) = .ok (number s) ∧ s ≤ 1 ∧ s ≠ 1) ∧
    ∃ h, holdout ([fourValues, fourValues].map (·.map number))
      ([fourValues, fourMeans].map (·.map number)) 2 = .ok h := by
  obtain ⟨hsingle, hseveral, hholdout⟩ := r2_laws (K := ℚ) (α := Exact ℚ)
  obtain ⟨s, hs, -, hone, -⟩ := hsingle fourValues fourValues ⟨rfl, by decide⟩
  obtain rfl := hone.2 rfl
  have hmeans : Scorable fourValues fourMeans := ⟨rfl, by decide⟩
  obtain ⟨z, -, -, -, hzero, hmoved⟩ := hsingle fourValues fourMeans hmeans
  have hvaries : ∃ x ∈ fourValues, ∃ y ∈ fourValues, x ≠ y :=
    ⟨1, by simp [fourValues], 2, by simp [fourValues], by norm_num⟩
  obtain rfl := hzero hvaries (by norm_num [fourValues, fourMeans])
  obtain ⟨t, ht, hle, hexact⟩ := hseveral [fourValues, fourValues] [fourValues, fourMeans]
    (List.cons_ne_nil _ _) (.cons ⟨rfl, by decide⟩ (.cons hmeans .nil))
  have hdiffer : [fourValues, fourMeans] ≠ [fourValues, fourValues] := by
    norm_num [fourValues, fourMeans]
  obtain ⟨-, -, -, -, -, hscored⟩ := hholdout ([fourValues, fourValues].map (·.map number))
    ([fourValues, fourMeans].map (·.map number)) 2
  exact ⟨hs, hmoved (-2) 32 (by norm_num), ⟨t, ht, hle, mt hexact.1 hdiffer⟩,
    hscored.2 ⟨number t, ht⟩⟩

end Infill.Score
