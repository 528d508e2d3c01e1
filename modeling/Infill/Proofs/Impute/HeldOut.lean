import Infill.Proofs.Impute.Contained
import Infill.Proofs.Impute.Written
import Infill.Proofs.Table.Veil
import Infill.Scalar.Double

/-! Held-out targets stay out of a filling by trees. Two tables that differ in the targets of the
last observed rows show the same training rows, so every trial gives the same result and the same
configuration is chosen; the model fitted to it predicts the same, and only its scores are told by
the rows that were held out. -/

namespace Infill

variable {α : Type} [Scalar α]

open Table

def Table.observedRows (t : Table α) (name : String) : List Nat :=
  match t.column? name with
  | some c => (List.range t.rowCount).filter fun row => !c.cells.isMissing row
  | none => []

/-- The row is one of the last `n` in which the column holds a value. -/
def Table.HeldOut (t : Table α) (name : String) (n row : Nat) : Prop :=
  row ∈ (t.observedRows name).drop ((t.observedRows name).length - n)

/-- Two fillings that differ in their scores and in hidden cells of the table. -/
structure Imputation.SameButScored (veil : String → Prop) (hidden : Nat → Prop)
    (i i' : Imputation α) : Prop where
  split : i'.split = i.split
  best : i'.best = i.best
  successes : i'.successes = i.successes
  failure : i'.failure = i.failure
  filled : i'.filled = i.filled
  table : i.table.Veiled veil hidden i'.table

theorem EqOff.set {β : Type} {hidden : Nat → Prop} {xs ys : List β} (h : EqOff hidden xs ys)
    (i : Nat) (x : β) : EqOff hidden (xs.set i x) (ys.set i x) := by
  refine ⟨by rw [List.length_set, List.length_set, h.length], fun j hj => ?_⟩
  rw [List.getElem?_set, List.getElem?_set, h.length, h.shown j hj]

omit [Scalar α] in
theorem EqOff.write {hidden : Nat → Prop} {xs ys : List (Option α)} (h : EqOff hidden xs ys)
    (cells : List (FilledCell α)) :
    EqOff hidden (FilledCell.write cells xs) (FilledCell.write cells ys) := by
  induction cells generalizing xs ys with
  | nil => exact h
  | cons c cells ih => exact ih (h.set c.row (some c.value))

/-- Whether there is a score is a matter of the number of values. -/
theorem Score.r2_agree {ys zs : List α} (h : zs.length = ys.length) (predicted : List α) :
    Agree (fun _ _ => True) (Score.r2 ys predicted) (Score.r2 zs predicted) := by
  unfold Score.r2
  rw [h]
  split_ifs
  · exact .error _
  · exact .ok trivial
  · exact .ok trivial

theorem Score.r2Average_one (actual predicted : List α) :
    Score.r2Average [actual] [predicted] =
      (Score.r2 actual predicted).map fun s => Scalar.mean [s] := by
  cases h : Score.r2 actual predicted <;>
    simp [Score.r2Average, h, Except.map, bind, Except.bind, pure, Except.pure]

theorem Score.r2Average_agree {ys zs : List α} (h : zs.length = ys.length) (predicted : List α) :
    Agree (fun _ _ => True) (Score.r2Average [ys] [predicted])
      (Score.r2Average [zs] [predicted]) := by
  rw [r2Average_one, r2Average_one]
  exact (Score.r2_agree h predicted).map fun _ _ _ => trivial

theorem Score.holdout_agree {ys zs : List α} (h : zs.length = ys.length) (predicted : List α)
    (n : Nat) : Agree (fun _ _ => True) (Score.holdout [ys] [predicted] n)
      (Score.holdout [zs] [predicted] n) := by
  have hlast : (Score.lastValues n zs).length = (Score.lastValues n ys).length := by
    simp [Score.lastValues, h]
  refine (Score.r2Average_agree h predicted).bind fun _ _ _ _ _ => ?_
  refine (Score.r2Average_agree hlast _).bind fun _ _ _ _ _ => ?_
  exact .ok trivial

namespace TreeFill

structure SameTraining (split : Split) (s s' : Sample α) : Prop where
  x : s'.x = s.x
  missing : s'.missing = s.missing
  xMissing : s'.xMissing = s.xMissing
  count : s'.y.length = s.y.length
  train : split.train.inside s'.y = split.train.inside s.y

section Samples

variable {split : Split} {s s' : Sample α}

theorem trial_same (h : SameTraining split s s') (kind : TreeKind) (settings : Settings α) :
    trial kind s' split settings = trial kind s split settings := by
  funext config
  unfold trial
  rw [h.x, h.train]

theorem predictions_agree (h : SameTraining split s s') (model : RowModel α) :
    Agree (fun p q => q.2 = p.2) (predictions model s split) (predictions model s' split) := by
  have htest : (split.test.inside s'.y).length = (split.test.inside s.y).length := by
    simp [Window.inside, h.count]
  unfold predictions
  rw [h.x, h.xMissing, h.train]
  split_ifs
  · exact .error _
  refine Agree.bind_same fun predict _ => ?_
  refine Agree.bind_same fun test _ => ?_
  refine (Score.holdout_agree htest test split.accuracyCount).bind fun _ _ _ _ _ => ?_
  refine Agree.bind_same fun values _ => ?_
  exact .ok rfl

theorem finish_agree {t t' : Table α} {target : String} {hidden : Nat → Prop}
    (ht : t.Veiled (· = target) hidden t') (h : SameTraining split s s') (kind : TreeKind)
    (successes : Nat) (best : Search.Config) (settings : Settings α) :
    Agree (Imputation.SameButScored (· = target) hidden)
      (finish kind t target s split successes best settings)
      (finish kind t' target s' split successes best settings) := by
  have hp := predictions_agree h (kind.build best settings.seed)
  unfold finish
  dsimp only
  generalize predictions (kind.build best settings.seed) s split = p,
    predictions (kind.build best settings.seed) s' split = q at hp
  cases hp with
  | error e => exact .ok ⟨rfl, rfl, rfl, rfl, rfl, ht⟩
  | @ok b c hbc =>
    obtain ⟨score, values⟩ := b
    obtain ⟨score', values'⟩ := c
    obtain rfl : values' = values := hbc
    have hupdate : Agree (Table.Veiled (· = target) hidden)
        (t.update target (FilledCell.write (cellsOf target s.missing values')))
        (t'.update target (FilledCell.write (cellsOf target s.missing values'))) :=
      ht.update fun _ _ _ hxy => hxy.write _
    dsimp only
    rw [h.missing]
    generalize t.update target _ = u, t'.update target _ = u' at hupdate
    cases hupdate with
    | error e => exact .ok ⟨rfl, rfl, rfl, rfl, rfl, ht⟩
    | ok hu => exact .ok ⟨rfl, rfl, rfl, rfl, rfl, hu⟩

end Samples

section Tables

variable {t t' : Table α} {target : String} {n : Nat} {values values' : List (Option α)}

theorem mem_observedRows {row : Nat} : row ∈ t.observedRows target ↔ row < t.rowCount ∧
    ∃ c, t.column? target = some c ∧ c.cells.isMissing row = false := by
  unfold observedRows
  cases t.column? target <;> simp

theorem observedRows_eq {missing : List Nat} (h : t.missingRows target = .ok missing) :
    ((List.range t.rowCount).filter fun i => !missing.contains i) = t.observedRows target := by
  obtain ⟨c, hc, h⟩ := bind_ok_iff.1 h
  obtain rfl := pure_ok_iff.1 h
  rw [observedRows, column_ok_iff.1 hc]
  refine List.filter_congr fun row hrow => ?_
  simp [List.mem_range.1 hrow]

theorem isSome_of_mem_observedRows (hv : t.numeric target = .ok values) {row : Nat}
    (hrow : row ∈ t.observedRows target) : (values[row]?.join).isSome := by
  obtain ⟨c, hc, hcells⟩ := numeric_ok_iff.1 hv
  obtain ⟨-, d, hd, hobs⟩ := mem_observedRows.1 hrow
  obtain rfl := Option.some.inj (hc.symm.trans hd)
  rw [Option.isSome_iff_ne_none]
  intro hnone
  have hmissing : c.cells.isMissing row = true := by
    rw [hcells, isMissing_numeric_iff, hnone]
    rfl
  simp [hobs] at hmissing

/-- The same rows are missing if the held-out ones are observed in both tables. -/
theorem missingRows_same (h : t.Veiled (· = target) (t.HeldOut target n) t')
    (hobs : ∀ row, t.HeldOut target n row → ¬ t'.MissingAt target row)
    (hv : t.numeric target = .ok values) (hv' : t'.numeric target = .ok values') :
    t'.missingRows target = t.missingRows target := by
  have hoff := (h.numeric target).results hv hv'
  obtain ⟨c, hc, hcells⟩ := numeric_ok_iff.1 hv
  obtain ⟨d, hd, hcells'⟩ := numeric_ok_iff.1 hv'
  have hrows : ∀ row, d.cells.isMissing row = c.cells.isMissing row := by
    intro row
    by_cases hrow : t.HeldOut target n row
    · obtain ⟨-, e, he, hthere⟩ := mem_observedRows.1 (List.mem_of_mem_drop hrow)
      obtain rfl := Option.some.inj (hc.symm.trans he)
      have hthere' : d.cells.isMissing row ≠ true := fun hm => hobs row hrow ⟨d, hd, hm⟩
      rw [hthere, Bool.eq_false_iff]
      exact hthere'
    · rw [hcells, hcells']
      exact isMissing_congr (hoff.shown row hrow)
  rw [missingRows, missingRows, column_ok_iff.2 hc, column_ok_iff.2 hd, h.rowCount]
  exact congrArg (fun p => (.ok ((List.range t.rowCount).filter p) : Except Error _))
    (funext hrows)

theorem take_filterMap_of_isSome {β γ : Type} {f : β → Option γ} {xs : List β}
    (h : ∀ x ∈ xs, (f x).isSome) (k : Nat) : (xs.filterMap f).take k = (xs.take k).filterMap f := by
  induction xs generalizing k with
  | nil => simp
  | cons x xs ih =>
    obtain ⟨y, hy⟩ := Option.isSome_iff_exists.1 (h x (by simp))
    cases k with
    | zero => simp
    | succ k => simp [hy, ih fun z hz => h z (by simp [hz])]

theorem encode_veiled {hidden : Nat → Prop} (h : t.Veiled (· = target) hidden t')
    (separator : Char) :
    FeatureMatrix.encode separator t' target = FeatureMatrix.encode separator t target := by
  have key : ∀ {cs ds : List (Column α)}, List.Forall₂ (Column.Veiled (· = target) hidden) cs ds →
      ds.filter (·.name ≠ target) = cs.filter (·.name ≠ target) := by
    intro cs ds h
    induction h with
    | nil => rfl
    | @cons c d cs ds hcd _ ih =>
      rw [List.filter_cons, List.filter_cons, ih, hcd.name]
      by_cases hname : c.name = target
      · simp [hname]
      · rw [hcd.eq hname]
  unfold FeatureMatrix.encode
  rw [key h.columns, h.rowCount]

/-- The held-out rows are the ones behind the training rows. -/
theorem not_heldOut_of_train {row : Nat}
    (h : row ∈ (t.observedRows target).take ((t.observedRows target).length - n)) :
    ¬ t.HeldOut target n row := by
  have hnodup : (t.observedRows target).Nodup := by
    unfold observedRows
    split
    · exact List.nodup_range.filter _
    · exact List.nodup_nil
  exact List.disjoint_take_drop hnodup (Nat.le_refl _) h

theorem sample_same (separator : Char) (h : t.Veiled (· = target) (t.HeldOut target n) t')
    (hobs : ∀ row, t.HeldOut target n row → ¬ t'.MissingAt target row)
    (hv : t.numeric target = .ok values) (hv' : t'.numeric target = .ok values')
    {missing : List Nat} (hm : t.missingRows target = .ok missing) (accuracy : Nat) :
    SameTraining (Split.ofSizes (Sample.ofTable separator t values missing target).y.length n
        accuracy)
      (Sample.ofTable separator t values missing target)
      (Sample.ofTable separator t' values' missing target) := by
  have hoff := (h.numeric target).results hv hv'
  have hrows := observedRows_eq hm
  have hrows' := observedRows_eq ((missingRows_same h hobs hv hv').trans hm)
  have hthere : ∀ row ∈ t.observedRows target, (values[row]?.join).isSome :=
    fun row => isSome_of_mem_observedRows hv
  have hthere' : ∀ row ∈ t.observedRows target, (values'[row]?.join).isSome := by
    intro row hrow
    rw [← hrows, ← h.rowCount, hrows'] at hrow
    exact isSome_of_mem_observedRows hv' hrow
  have hcount : ((t.observedRows target).filterMap fun i => values[i]?.join).length =
      (t.observedRows target).length := List.filterMap_length_eq_length.2 hthere
  have hcount' : ((t.observedRows target).filterMap fun i => values'[i]?.join).length =
      (t.observedRows target).length := List.filterMap_length_eq_length.2 hthere'
  unfold Sample.ofTable
  dsimp only
  rw [h.rowCount, encode_veiled h, hrows, hcount]
  refine ⟨rfl, rfl, rfl, hcount'.trans hcount.symm, ?_⟩
  simp only [Window.inside, Split.train, Window.length, Split.trainCount, Split.ofSizes,
    List.drop_zero, Nat.sub_zero]
  rw [take_filterMap_of_isSome hthere, take_filterMap_of_isSome hthere']
  refine List.filterMap_congr fun row hrow => ?_
  rw [hoff.shown row (not_heldOut_of_train ?_)]
  have htrain : (t.observedRows target).length - min n (t.observedRows target).length =
      (t.observedRows target).length - n := by omega
  rwa [htrain] at hrow

/-- The targets of the last rows have no part in what is chosen and filled in. -/
theorem heldOut_unseen (h : t.Veiled (· = target) (t.HeldOut target n) t')
    (hobs : ∀ row, t.HeldOut target n row → ¬ t'.MissingAt target row) (kind : TreeKind)
    (accuracySize : Nat) (settings : Settings α) :
    Agree (Imputation.SameButScored (· = target) (t.HeldOut target n))
      (train t target kind n accuracySize settings)
      (train t' target kind n accuracySize settings) := by
  unfold train
  refine (h.numeric target).bind fun values values' hv hv' _ => ?_
  rw [missingRows_same h hobs hv hv']
  refine Agree.bind_same fun missing hm => ?_
  split_ifs
  · exact .ok ⟨rfl, rfl, rfl, rfl, rfl, h⟩
  have hsame := sample_same settings.separator h hobs hv hv' hm accuracySize
  dsimp only
  rw [hsame.count, trial_same hsame]
  split
  · exact .ok ⟨rfl, rfl, rfl, rfl, rfl, h⟩
  · exact finish_agree h hsame kind _ _ settings

end Tables

def lastCounted (last : Float) : Table Float where
  columns := [
    ⟨"traps", .numeric [some 4.0, some 2.0, some 3.0, some 5.0, some 1.0]⟩,
    ⟨"adults", .numeric [some 10.0, some 7.0, none, some 12.0, some last]⟩]
  rowCount := 5

theorem lastCounted_heldOut {row : Nat} : (lastCounted 3.0).HeldOut "adults" 1 row ↔ row = 4 := by
  have hrows : (lastCounted 3.0).observedRows "adults" = [0, 1, 3, 4] := by decide +kernel
  simp [HeldOut, hrows]

theorem lastCounted_veiled (last last' : Float) :
    (lastCounted last).Veiled (· = "adults") (· = 4) (lastCounted last') := by
  have hlast : ∀ a b c d : Option Float,
      EqOff (· = 4) [a, b, c, d, some last] [a, b, c, d, some last'] := by
    intro a b c d
    refine ⟨rfl, fun row hrow => ?_⟩
    match row with
    | 0 | 1 | 2 | 3 => rfl
    | 4 => exact absurd rfl hrow
    | _ + 5 => rfl
  exact ⟨rfl, .cons (.refl _ _ _) (.cons ⟨rfl, .numeric (hlast _ _ _ _),
    fun hplain => absurd rfl hplain⟩ .nil)⟩

theorem lastCounted_unseen :
    (lastCounted 3.0).Veiled (· = "adults") ((lastCounted 3.0).HeldOut "adults" 1)
      (lastCounted 8.0) ∧
    (∀ row, (lastCounted 3.0).HeldOut "adults" 1 row →
      ¬ (lastCounted 8.0).MissingAt "adults" row) ∧
    ∃ i i', train (lastCounted 3.0) "adults" .decisionTree 1 1 .standard = .ok i ∧
      train (lastCounted 8.0) "adults" .decisionTree 1 1 .standard = .ok i' ∧
      i.SameButScored (· = "adults") ((lastCounted 3.0).HeldOut "adults" 1) i' := by
  have hhidden : (lastCounted 3.0).HeldOut "adults" 1 = (· = 4) := by
    funext row
    exact propext lastCounted_heldOut
  have hveiled : (lastCounted 3.0).Veiled (· = "adults")
      ((lastCounted 3.0).HeldOut "adults" 1) (lastCounted 8.0) := by
    rw [hhidden]
    exact lastCounted_veiled 3.0 8.0
  have hobs : ∀ row, (lastCounted 3.0).HeldOut "adults" 1 row →
      ¬ (lastCounted 8.0).MissingAt "adults" row := by
    have hthere : 4 ∈ (lastCounted 8.0).observedRows "adults" := by decide +kernel
    rintro row hrow ⟨c, hc, hm⟩
    obtain rfl := lastCounted_heldOut.1 hrow
    obtain ⟨-, d, hd, hobs⟩ := mem_observedRows.1 hthere
    obtain rfl := Option.some.inj (hc.symm.trans hd)
    simp [hm] at hobs
  have hnumeric : ∀ last : Float, ∃ xs, (lastCounted last).numeric "adults" = .ok xs :=
    fun _ => ⟨_, rfl⟩
  obtain ⟨i, hi⟩ := train_total (hnumeric 3.0).choose_spec .decisionTree 1 1 .standard
  obtain ⟨i', hi'⟩ := train_total (hnumeric 8.0).choose_spec .decisionTree 1 1 .standard
  have hsame := heldOut_unseen hveiled hobs .decisionTree 1 .standard
  exact ⟨hveiled, hobs, i, i', hi, hi', hsame.results hi hi'⟩

end TreeFill

end Infill
