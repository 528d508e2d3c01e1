import Mathlib.Algebra.Order.BigOperators.Group.List
import Infill.Impute.TreeFill
import Infill.Proofs.Folds
import Infill.Proofs.Scalar.Absorbing

/-! Too few training rows for the folds leave the table alone. Where a fold has two rows or more on
average there may be a score; with fewer, some fold has a single row, whose score is not a number, and
neither is the mean over the folds. A search takes no such trial for its best one, so that nothing is
fitted in the end, whatever the trials count as. -/

namespace Infill

variable {α : Type} [Scalar α]

open Scalar (isNaN AbsorbsNaN)

namespace Folds

/-- With less than two rows to a window, one of them has a single row. -/
theorem Parts.exists_single {rows count : Nat} {ws : List Window} (h : Parts rows count ws)
    (hfew : rows < 2 * count) : ∃ w ∈ ws, w.length < 2 := by
  by_contra hall
  push Not at hall
  have hlarge := List.card_nsmul_le_sum (ws.map Window.length) 2 (by simpa using hall)
  have hsum := h.sum_length
  rw [List.length_map, h.length, hsum, nsmul_eq_mul, Nat.cast_id] at hlarge
  omega

theorem r2_single {actual predicted : List α} {score : α} (h : actual.length < 2)
    (hscore : Score.r2 actual predicted = .ok score) : score = Scalar.nan := by
  unfold Score.r2 at hscore
  split_ifs at hscore
  exact (Except.ok.inj hscore).symm

variable [AbsorbsNaN α]

theorem isNaN_mean {train : Trainer α} {x : List (List α)} {y : List α} {folds : Nat}
    {report : Report α} (hfew : y.length < 2 * folds ∨ folds < 2)
    (h : crossValidate train x y folds = .ok report) : isNaN report.mean = true := by
  unfold crossValidate at h
  split_ifs at h
  obtain ⟨ws, hws, h⟩ := bind_ok_iff.1 h
  obtain ⟨scores, hscores, h⟩ := bind_ok_iff.1 h
  obtain rfl := pure_ok_iff.1 h
  obtain ⟨htwo, hparts⟩ := parts_of_windows hws
  obtain ⟨w, hw, hsingle⟩ := hparts.exists_single (by omega)
  obtain ⟨score, hmem, hscore⟩ := forall₂_mem_left (mapM_ok_iff.1 hscores) hw
  rw [foldScore_eq] at hscore
  obtain ⟨predicted, -, hscore⟩ := bind_ok_iff.1 hscore
  obtain rfl := r2_single (by rwa [Window.length_inside (hparts.stop_le hw)]) hscore
  exact AbsorbsNaN.isNaN_mean hmem AbsorbsNaN.isNaN_nan

end Folds

namespace Search

variable {β : Type}

theorem best?_eq_none {score : β → α} {trials : List (Trial β)}
    (h : ∀ trial ∈ trials, ∀ result, trial.result = .ok result → isNaN (score result) = true) :
    best? score trials = none := by
  refine List.foldlRecOn (motive := (· = none)) trials.zipIdx _ rfl ?_
  rintro _ rfl ⟨trial, i⟩ htrial
  unfold better
  split
  · rfl
  · rename_i result hresult
    have hnan := h trial (List.fst_mem_of_mem_zipIdx htrial) result hresult
    simp [Score.improves, hnan]

end Search

namespace TreeFill

variable [AbsorbsNaN α] {t : Table α} {target : String} {values : List (Option α)}
  {missing : List Nat} {settings : Settings α}

/-- The training rows are too few for two of them in every fold. -/
def FewRows (s : Sample α) (testSize accuracySize folds : Nat) : Prop :=
  (Split.ofSizes s.y.length testSize accuracySize).trainCount < 2 * folds ∨ folds < 2

theorem isNaN_trial {s : Sample α} {testSize accuracySize : Nat}
    (hfew : FewRows s testSize accuracySize settings.folds) (kind : TreeKind)
    (config : Search.Config) {score : α}
    (h : trial kind s (.ofSizes s.y.length testSize accuracySize) settings config = .ok score) :
    isNaN score = true := by
  obtain ⟨report, hreport, h⟩ := bind_ok_iff.1 h
  obtain rfl := pure_ok_iff.1 h
  refine Folds.isNaN_mean ?_ hreport
  rwa [Window.length_inside (Nat.sub_le ..)]

/-- A search over too few rows ends without a model. -/
theorem requireBest_few {s : Sample α} {testSize accuracySize : Nat}
    (hfew : FewRows s testSize accuracySize settings.folds) (kind : TreeKind) (plan : Search.Plan) :
    Search.requireBest kind.name id (Search.run plan kind.grid
      (trial kind s (.ofSizes s.y.length testSize accuracySize) settings)) =
        .error (.noSuccessfulTrial kind.name) := by
  rw [Search.requireBest, Search.best?_eq_none]
  intro outcome houtcome score hscore
  obtain ⟨config, -, rfl⟩ := List.mem_map.1 houtcome
  exact isNaN_trial hfew kind config hscore

/-- Where the training rows are too few, no model is chosen and the table stays as it is. -/
theorem few_rows_unfilled (hvalues : t.numeric target = .ok values)
    (hmissing : t.missingRows target = .ok missing) (hopen : missing ≠ []) (kind : TreeKind)
    (testSize accuracySize : Nat)
    (hfew : FewRows (Sample.ofTable settings.separator t values missing target) testSize
      accuracySize settings.folds) :
    ∃ i, train t target kind testSize accuracySize settings = .ok i ∧ i.table = t ∧
      i.filled = none ∧ i.best = none ∧ i.score = none ∧ i.accuracy = none ∧
      i.failure = some (.noSuccessfulTrial kind.name) := by
  unfold train
  rw [hvalues, hmissing]
  dsimp only [bind, Except.bind]
  rw [if_neg (by simpa using hopen), requireBest_few hfew]
  exact ⟨_, rfl, rfl, rfl, rfl, rfl, rfl, rfl⟩

def fourCounted : Table Float where
  columns := [
    ⟨"traps", .numeric [some 4.0, some 2.0, some 3.0, some 5.0, some 1.0]⟩,
    ⟨"adults", .numeric [some 10.0, some 7.0, none, some 12.0, some 8.0]⟩]
  rowCount := 5

def threeFolds : Settings Float := { Settings.standard with trials := 1, folds := 3 }

/-- Four training rows are too few for three folds, also for a trial that counts as a success. -/
theorem fourCounted_unfilled : ∃ values missing,
    fourCounted.numeric "adults" = .ok values ∧ fourCounted.missingRows "adults" = .ok missing ∧
    missing ≠ [] ∧
    FewRows (Sample.ofTable threeFolds.separator fourCounted values missing "adults") 0 0 3 ∧
    ∃ i, train fourCounted "adults" .decisionTree 0 0 threeFolds = .ok i ∧ i.successes = 1 ∧
      i.table = fourCounted ∧ i.filled = none ∧ i.best = none ∧ i.score = none ∧
      i.accuracy = none ∧ i.failure = some (.noSuccessfulTrial "decisionTree") := by
  have hfew : FewRows (Sample.ofTable threeFolds.separator fourCounted
      [some 10.0, some 7.0, none, some 12.0, some 8.0] [2] "adults") 0 0 3 :=
    .inl (by decide +kernel)
  have hmissing : fourCounted.missingRows "adults" = .ok [2] := by
    have hrows : (fourCounted.missingRows "adults").toOption = some [2] := by decide +kernel
    cases h : fourCounted.missingRows "adults" <;> rw [h] at hrows <;> simp_all [Except.toOption]
  have hunfilled : ∃ i, train fourCounted "adults" .decisionTree 0 0 threeFolds = .ok i ∧ _ :=
    few_rows_unfilled rfl hmissing (by decide) .decisionTree 0 0 hfew
  obtain ⟨i, htrain, hoff⟩ := hunfilled
  have hsuccesses : ((train fourCounted "adults" .decisionTree 0 0 threeFolds).map
      (·.successes)).toOption = some 1 := by decide +kernel
  rw [htrain] at hsuccesses
  exact ⟨_, [2], rfl, hmissing, by decide, hfew, i, htrain, Option.some.inj hsuccesses, hoff⟩

end TreeFill

end Infill
