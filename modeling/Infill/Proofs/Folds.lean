import Mathlib.Algebra.BigOperators.Group.List.Basic
import Infill.Folds
import Infill.Proofs.Pick
import Infill.Proofs.Scalar.Exact
import Infill.Proofs.Score
import Infill.Proofs.Success
import Infill.Proofs.Table.Veil

/-! Cross-validation predicts every row from the others. The windows follow each other without a gap
and cover all rows, and no two of them differ by more than one row; each of them is scored by a model
that has seen exactly the rows outside of it, so that the targets inside have no part in its
predictions. -/

namespace Infill

namespace Window

variable {β : Type}

def positions (w : Window) : List Nat := List.range' w.first w.length

/-- Those of `rows` positions that lie outside of the window, in order. -/
def others (w : Window) (rows : Nat) : List Nat :=
  (List.range rows).filter fun i => !(w.first ≤ i && i < w.stop)

theorem inside_eq_pick (w : Window) (xs : List β) : w.inside xs = pick w.positions xs :=
  (pick_range' ..).symm

theorem length_inside {w : Window} {xs : List β} (h : w.stop ≤ xs.length) :
    (w.inside xs).length = w.length := by
  rw [inside, List.length_take, List.length_drop, length]
  omega

theorem inside_subset (w : Window) (xs : List β) : w.inside xs ⊆ xs :=
  fun _ hx => List.mem_of_mem_drop (List.mem_of_mem_take hx)

theorem outside_subset (w : Window) (xs : List β) : w.outside xs ⊆ xs :=
  List.append_subset.2 ⟨List.take_subset _ _, List.drop_subset _ _⟩

theorem length_outside {w : Window} {xs : List β} (hfirst : w.first ≤ w.stop)
    (hstop : w.stop ≤ xs.length) : (w.outside xs).length = xs.length - w.length := by
  rw [outside, List.length_append, List.length_take, List.length_drop, length]
  omega

theorem others_eq {w : Window} {rows : Nat} (hfirst : w.first ≤ w.stop) (hstop : w.stop ≤ rows) :
    w.others rows = List.range w.first ++ List.range' w.stop (rows - w.stop) := by
  obtain ⟨count, hcount⟩ := Nat.exists_eq_add_of_le hfirst
  obtain ⟨rest, rfl⟩ := Nat.exists_eq_add_of_le hstop
  have hall : List.range (w.stop + rest) =
      List.range w.first ++ List.range' w.first count ++ List.range' w.stop rest := by
    rw [hcount, List.range_eq_range', List.range_eq_range', ← List.range'_append_1,
      ← List.range'_append_1, Nat.zero_add, Nat.zero_add]
  have hbefore : (List.range w.first).filter (fun i => !(w.first ≤ i && i < w.stop)) =
      List.range w.first := by
    refine List.filter_eq_self.2 fun i hi => ?_
    have := List.mem_range.1 hi
    simp only [Bool.not_eq_true', Bool.and_eq_false_iff, decide_eq_false_iff_not]
    omega
  have hwithin : (List.range' w.first count).filter (fun i => !(w.first ≤ i && i < w.stop)) =
      [] := by
    refine List.filter_eq_nil_iff.2 fun i hi => ?_
    have := List.mem_range'_1.1 hi
    simp only [Bool.not_eq_true', Bool.and_eq_false_iff, decide_eq_false_iff_not]
    omega
  have hbehind : (List.range' w.stop rest).filter (fun i => !(w.first ≤ i && i < w.stop)) =
      List.range' w.stop rest := by
    refine List.filter_eq_self.2 fun i hi => ?_
    have := List.mem_range'_1.1 hi
    simp only [Bool.not_eq_true', Bool.and_eq_false_iff, decide_eq_false_iff_not]
    omega
  rw [others, hall, List.filter_append, List.filter_append, hbefore, hwithin, hbehind,
    List.append_nil, Nat.add_sub_cancel_left]

theorem outside_eq_pick {w : Window} {xs : List β} (hfirst : w.first ≤ w.stop)
    (hstop : w.stop ≤ xs.length) : w.outside xs = pick (w.others xs.length) xs := by
  rw [others_eq hfirst hstop, pick_append, List.range_eq_range', pick_range', pick_range',
    List.drop_zero, ← List.length_drop, List.take_length, outside]

theorem outside_congr {w : Window} {xs ys : List β} (hfirst : w.first ≤ w.stop)
    (hstop : w.stop ≤ xs.length) (h : EqOff (· ∈ w.positions) xs ys) :
    w.outside ys = w.outside xs := by
  rw [outside_eq_pick hfirst hstop, outside_eq_pick hfirst (h.length ▸ hstop), h.length]
  refine List.filterMap_congr fun i hi => h.shown i fun hin => ?_
  obtain ⟨-, hout⟩ := List.mem_filter.1 hi
  obtain ⟨hle, hlt⟩ := List.mem_range'_1.1 hin
  have hwidth : w.first + w.length = w.stop := Nat.add_sub_cancel' hfirst
  simp only [Bool.not_eq_true', Bool.and_eq_false_iff, decide_eq_false_iff_not] at hout
  omega

end Window

namespace Folds

/-- Windows that part the rows: they follow each other and cover all rows, none of them is empty,
and of two of them the earlier one is larger by at most one row. -/
structure Parts (rows count : Nat) (windows : List Window) : Prop where
  length : windows.length = count
  covers : windows.flatMap Window.positions = List.range rows
  nonempty : ∀ w ∈ windows, w.first < w.stop
  balanced : windows.Pairwise fun v w => w.length ≤ v.length ∧ v.length ≤ w.length + 1

theorem map_length_windowsFrom (start : Nat) (sizes : List Nat) :
    (windowsFrom start sizes).map Window.length = sizes := by
  induction sizes generalizing start with
  | nil => rfl
  | cons size sizes ih =>
    rw [windowsFrom, List.map_cons, ih, Window.length, Nat.add_sub_cancel_left]

theorem positions_windowsFrom (start : Nat) (sizes : List Nat) :
    (windowsFrom start sizes).flatMap Window.positions = List.range' start sizes.sum := by
  induction sizes generalizing start with
  | nil => rfl
  | cons size sizes ih =>
    rw [windowsFrom, List.flatMap_cons, ih, Window.positions, Window.length,
      Nat.add_sub_cancel_left, List.range'_append_1, List.sum_cons]

/-- The first windows hold one of the surplus rows each. -/
theorem sum_surplus (size surplus count : Nat) :
    ((List.range count).map fun i => size + if i < surplus then 1 else 0).sum =
      count * size + min count surplus := by
  induction count with
  | zero => simp
  | succ count ih =>
    rw [List.range_succ, List.map_append, List.sum_append, ih, Nat.succ_mul]
    simp only [List.map_cons, List.map_nil, List.sum_cons, List.sum_nil]
    split_ifs <;> omega

theorem sum_sizes {rows folds : Nat} (h : 0 < folds) : (sizes rows folds).sum = rows := by
  rw [sizes, sum_surplus, Nat.min_eq_right (Nat.mod_lt rows h).le, Nat.div_add_mod]

theorem sizes_balanced (rows folds : Nat) :
    (sizes rows folds).Pairwise fun a b => b ≤ a ∧ a ≤ b + 1 := by
  rw [sizes, List.pairwise_map]
  refine List.pairwise_lt_range.imp fun {i j} hij => ?_
  split_ifs <;> omega

/-- Rows are parted wherever there is at least one for each of two windows or more. -/
theorem windows_parts {rows folds : Nat} (htwo : 2 ≤ folds) (hle : folds ≤ rows) :
    ∃ ws, windows rows folds = .ok ws ∧ Parts rows folds ws := by
  have hcut : ¬ (folds < 2 || rows < folds) = true := by
    simp only [Bool.or_eq_true, decide_eq_true_eq]
    omega
  have hlengths := map_length_windowsFrom 0 (sizes rows folds)
  refine ⟨_, if_neg hcut, ?_, ?_, fun w hw => ?_, ?_⟩
  · rw [← List.length_map Window.length, hlengths, sizes, List.length_map, List.length_range]
  · rw [positions_windowsFrom, sum_sizes (by omega), List.range_eq_range']
  · have hsize : w.length ∈ sizes rows folds := hlengths ▸ List.mem_map_of_mem hw
    obtain ⟨i, -, hi⟩ := List.mem_map.1 hsize
    have hpos : 0 < rows / folds := Nat.div_pos hle (by omega)
    have hlength : 0 < w.stop - w.first := by
      rw [← Window.length, ← hi]
      omega
    omega
  · have hbalanced := sizes_balanced rows folds
    rwa [← hlengths, List.pairwise_map] at hbalanced

theorem parts_of_windows {rows folds : Nat} {ws : List Window} (h : windows rows folds = .ok ws) :
    2 ≤ folds ∧ Parts rows folds ws := by
  have hcut : ¬ (folds < 2 || rows < folds) = true := by
    intro hcut
    rw [windows, if_pos hcut] at h
    cases h
  simp only [Bool.or_eq_true, decide_eq_true_eq, not_or, Nat.not_lt] at hcut
  obtain ⟨ws', hws', hparts⟩ := windows_parts hcut.1 hcut.2
  obtain rfl := Except.ok.inj (h.symm.trans hws')
  exact ⟨hcut.1, hparts⟩

theorem Parts.stop_le {rows count : Nat} {ws : List Window} (h : Parts rows count ws) {w : Window}
    (hw : w ∈ ws) : w.stop ≤ rows := by
  have hnonempty := h.nonempty w hw
  have hlast : w.stop - 1 ∈ ws.flatMap Window.positions := by
    refine List.mem_flatMap.2 ⟨w, hw, List.mem_range'_1.2 ?_⟩
    rw [Window.length]
    omega
  rw [h.covers, List.mem_range] at hlast
  omega

theorem Parts.sum_length {rows count : Nat} {ws : List Window} (h : Parts rows count ws) :
    (ws.map Window.length).sum = rows := by
  have hlength := congrArg List.length h.covers
  rw [List.length_flatMap, List.length_range] at hlength
  simpa [Window.positions] using hlength

/-- With two windows or more, none of them holds all rows. -/
theorem Parts.length_lt {rows count : Nat} {ws : List Window} (h : Parts rows count ws)
    (htwo : 2 ≤ count) {w : Window} (hw : w ∈ ws) : w.length < rows := by
  have hsum := h.sum_length
  have hcount := h.length
  obtain ⟨before, behind, rfl⟩ := List.append_of_mem hw
  have hrest : (before ++ behind).length ≤ ((before ++ behind).map Window.length).sum := by
    rw [← List.length_map Window.length]
    refine List.length_le_sum_of_one_le _ fun size hsize => ?_
    obtain ⟨v, hv, rfl⟩ := List.mem_map.1 hsize
    have hmem : v ∈ before ++ w :: behind := by
      simp only [List.mem_append, List.mem_cons] at hv ⊢
      tauto
    exact Nat.sub_pos_of_lt (h.nonempty v hmem)
  simp only [List.map_append, List.map_cons, List.sum_append, List.sum_cons, List.length_append,
    List.length_cons] at hsum hrest hcount
  omega

variable {α : Type} [Scalar α]

/-- What a model that is fitted to the rows outside of a window predicts for those inside. -/
def predictions (train : Trainer α) (x : List (List α)) (y : List α) (w : Window) :
    Except Error (List α) := do
  let predict ← train (w.outside x) (w.outside y)
  predict (w.inside x)

theorem foldScore_eq (train : Trainer α) (x : List (List α)) (y : List α) (w : Window) :
    foldScore train x y w = predictions train x y w >>= Score.r2 (w.inside y) :=
  (bind_assoc ..).symm

/-- A model can be fitted to the rows outside of every window that leaves some, and has one prediction
for each row inside. -/
def Predicts (train : Trainer α) (x : List (List α)) (y : List α) : Prop :=
  ∀ w : Window, w.first < w.stop → w.stop ≤ y.length → w.length < y.length →
    ∃ predicted, predictions train x y w = .ok predicted ∧ predicted.length = w.length

/-- The score of the rows inside of a window by a fresh model that is fitted to exactly the other rows,
in their order. Other targets inside of the window do not change what it predicts. -/
def ScoredUnseen (train : Trainer α) (x : List (List α)) (y : List α) (w : Window) (score : α) :
    Prop :=
  ∃ predict predicted,
    train (pick (w.others x.length) x) (pick (w.others y.length) y) = .ok predict ∧
    predict (pick w.positions x) = .ok predicted ∧
    Score.r2 (pick w.positions y) predicted = .ok score ∧
    ∀ y', EqOff (· ∈ w.positions) y y' → predictions train x y' w = .ok predicted

theorem foldScore_unseen {train : Trainer α} {x : List (List α)} {y : List α}
    (hrows : x.length = y.length) {w : Window} (hfirst : w.first ≤ w.stop)
    (hstop : w.stop ≤ y.length) {score : α} (h : foldScore train x y w = .ok score) :
    ScoredUnseen train x y w score := by
  rw [foldScore_eq] at h
  obtain ⟨predicted, hpredicted, hscore⟩ := bind_ok_iff.1 h
  have hunseen : ∀ y', EqOff (· ∈ w.positions) y y' → predictions train x y' w = .ok predicted := by
    intro y' hy'
    rw [← hpredicted, predictions, Window.outside_congr hfirst hstop hy', predictions]
  obtain ⟨predict, hpredict, hinside⟩ := bind_ok_iff.1 hpredicted
  rw [Window.outside_eq_pick hfirst hstop, Window.outside_eq_pick hfirst (hrows ▸ hstop)] at hpredict
  rw [Window.inside_eq_pick] at hinside hscore
  exact ⟨predict, predicted, hpredict, hinside, hscore, hunseen⟩

/-- Where a model can be fitted and predicts, the rows are parted into as many windows as asked for, or
as there are rows, and every window is scored by a model of the others; the mean is taken over the
windows. There have to be two of them. -/
theorem crossValidate_unseen {train : Trainer α} {x : List (List α)} {y : List α}
    (hrows : x.length = y.length) (folds : Nat) :
    (min folds y.length < 2 → crossValidate train x y folds = .error (.invalidParameter
      s!"cannot split {y.length} rows into {min folds y.length} folds")) ∧
    (2 ≤ y.length → 2 ≤ folds → Predicts train x y →
      ∃ ws report, crossValidate train x y folds = .ok report ∧
        Parts y.length (min folds y.length) ws ∧
        List.Forall₂ (ScoredUnseen train x y) ws report.scores ∧
        report.mean = Scalar.sum report.scores / (min folds y.length : Nat)) := by
  unfold crossValidate
  rw [if_neg (not_not.2 hrows)]
  refine ⟨fun hfew => ?_, fun hlong hfolds hpredicts => ?_⟩
  · have hcut : (min folds y.length < 2 || y.length < min folds y.length) = true := by
      rw [decide_eq_true hfew, Bool.true_or]
    rw [windows, if_pos hcut]
    rfl
  · obtain ⟨ws, hws, hparts⟩ := windows_parts (le_min hfolds hlong) (min_le_right folds y.length)
    have htotal : ∀ w ∈ ws, ∃ score, foldScore train x y w = .ok score := by
      intro w hw
      obtain ⟨predicted, hpredicted, hlength⟩ := hpredicts w (hparts.nonempty w hw)
        (hparts.stop_le hw) (hparts.length_lt (le_min hfolds hlong) hw)
      rw [foldScore_eq, hpredicted]
      exact Score.exists_r2_iff.2 (by rw [Window.length_inside (hparts.stop_le hw), hlength])
    obtain ⟨scores, hscores⟩ := mapM_total htotal
    have hunseen : List.Forall₂ (ScoredUnseen train x y) ws scores := by
      have hproper : ∀ w ∈ ws, w.first ≤ w.stop ∧ w.stop ≤ y.length :=
        fun w hw => ⟨(hparts.nonempty w hw).le, hparts.stop_le hw⟩
      refine ((List.forall₂_and_left ..).2 ⟨hproper, mapM_ok_iff.1 hscores⟩).imp ?_
      rintro w score ⟨⟨hfirst, hstop⟩, hscore⟩
      exact foldScore_unseen hrows hfirst hstop hscore
    refine ⟨ws, ⟨scores, Scalar.mean scores⟩, ?_, hparts, hunseen, ?_⟩
    · exact bind_ok_iff.2 ⟨ws, hws, bind_ok_iff.2 ⟨scores, hscores, rfl⟩⟩
    · rw [← hparts.length, hunseen.length_eq]
      rfl

def meanTrainer : Trainer α := fun _ y => .ok fun rows => .ok (rows.map fun _ => Scalar.mean y)

theorem meanTrainer_predicts {x : List (List α)} {y : List α} (h : x.length = y.length) :
    Predicts meanTrainer x y := by
  intro w _ hstop _
  refine ⟨_, rfl, ?_⟩
  rw [List.length_map, Window.length_inside (h ▸ hstop)]

/-- Five values in two windows, and in one, which is too few. -/
theorem fiveValues_unseen :
    let x : List (List (Exact ℚ)) := List.replicate 5 []
    let y : List (Exact ℚ) := [1, 2, 4, 7, 3].map .number
    x.length = y.length ∧ 2 ≤ y.length ∧ Predicts meanTrainer x y ∧
    crossValidate meanTrainer x y 1 =
      .error (.invalidParameter "cannot split 5 rows into 1 folds") ∧
    ∃ ws report, crossValidate meanTrainer x y 2 = .ok report ∧ Parts 5 2 ws ∧
      List.Forall₂ (ScoredUnseen meanTrainer x y) ws report.scores ∧
      report.mean = Scalar.sum report.scores / (2 : Nat) := by
  intro x y
  have hrows : x.length = y.length := rfl
  have hlong : 2 ≤ y.length := by decide
  have hpredicts := meanTrainer_predicts hrows
  have hfew : min 1 y.length < 2 → crossValidate meanTrainer x y 1 = _ :=
    (crossValidate_unseen hrows 1).1
  have henough : 2 ≤ y.length → 2 ≤ 2 → Predicts meanTrainer x y → _ :=
    (crossValidate_unseen hrows 2).2
  have hmessage : s!"cannot split {y.length} rows into {min 1 y.length} folds" =
      "cannot split 5 rows into 1 folds" := by decide +kernel
  exact ⟨hrows, hlong, hpredicts, hmessage ▸ hfew (by decide), henough hlong le_rfl hpredicts⟩

end Folds
end Infill
