import Mathlib.Algebra.Order.BigOperators.Group.List
import Mathlib.Data.Set.List
import Infill.Impute.TreeFill
import Infill.Proofs.Success
import Infill.Proofs.Tree.Growth

/-! Trees and forests stay within the range of what they were fitted to. A leaf holds the average of
targets, and no leaf goes without them, so that whatever way a row takes through a tree it is answered
between the lowest and the highest target; so is an average over trees, each of them grown on rows that
were drawn. Every row of the right width is answered, and nothing else is. -/

namespace Infill

open Exact (number nan)
open Scalar (SortsNumbers Bisects)

namespace Exact

variable {K : Type} [ExactNumber K] {low high : K}

def Between (low high : K) (x : Exact K) : Prop := number low ≤ x ∧ x ≤ number high

theorem between_number {v : K} : Between low high (number v) ↔ low ≤ v ∧ v ≤ high := Iff.rfl

theorem Between.exists_number {x : Exact K} (h : Between low high x) : ∃ v, number v = x := by
  rcases x with v | -
  · exact ⟨v, rfl⟩
  · exact absurd h.1 not_false

theorem mean_between {xs : List (Exact K)} (hxs : xs ≠ []) (h : ∀ x ∈ xs, Between low high x) :
    Between low high (Scalar.mean xs) := by
  obtain ⟨vs, rfl⟩ : xs ∈ Set.range (List.map number) := by
    rw [Set.range_list_map]
    exact fun x hx => (h x hx).exists_number
  simp only [List.forall_mem_map, between_number] at h
  have hvs : vs ≠ [] := by simpa using hxs
  have hcount : (0 : K) < vs.length := Nat.cast_pos.2 (List.length_pos_iff.2 hvs)
  rw [mean_numbers hvs, between_number, le_div_iff₀ hcount, div_le_iff₀ hcount, mul_comm low,
    mul_comm high, ← nsmul_eq_mul, ← nsmul_eq_mul]
  exact ⟨List.card_nsmul_le_sum vs low fun v hv => (h v hv).1,
    List.sum_le_card_nsmul vs high fun v hv => (h v hv).2⟩

theorem exists_range {vs : List K} (hvs : vs ≠ []) :
    ∃ low high, vs.min? = some low ∧ vs.max? = some high ∧
      ∀ x ∈ vs.map number, Between low high x := by
  obtain ⟨low, hlow⟩ := Option.isSome_iff_exists.1 (List.isSome_min?_iff.2 hvs)
  obtain ⟨high, hhigh⟩ := Option.isSome_iff_exists.1 (List.isSome_max?_iff.2 hvs)
  refine ⟨low, high, hlow, hhigh, List.forall_mem_map.2 fun v hv => between_number.2 ⟨?_, ?_⟩⟩
  · exact (List.min?_eq_some_iff.1 hlow).2 v hv
  · exact (List.max?_eq_some_iff.1 hhigh).2 v hv

end Exact

section Averages

variable {α : Type} [Scalar α]

theorem GrownTree.predict_eq (t : GrownTree α) {rows : List (List α)}
    (hrows : ∀ row ∈ rows, row.length = t.featureCount) :
    t.predict rows = .ok (rows.map t.root.predict) := by
  rw [predict, mapM_ok_iff, List.forall₂_map_right_iff, List.forall₂_same]
  exact fun row hrow => if_pos (hrows row hrow)

namespace Forest

/-- What the trees answer for a row is added up in the order of the trees. -/
theorem foldlM_addPredictions {trees : List (GrownTree α)} {rows : List (List α)}
    (hrows : ∀ t ∈ trees, ∀ row ∈ rows, row.length = t.featureCount) (sums : List α → α) :
    trees.foldlM (addPredictions rows) (rows.map sums) =
      .ok (rows.map fun row => trees.foldl (fun sum t => sum + t.root.predict row) (sums row)) := by
  induction trees generalizing sums with
  | nil => rfl
  | cons t trees ih =>
    have hstep : addPredictions rows (rows.map sums) t =
        .ok (rows.map fun row => sums row + t.root.predict row) := by
      rw [addPredictions, t.predict_eq (hrows t List.mem_cons_self)]
      exact congrArg Except.ok (by rw [List.zipWith_map, List.zipWith_self])
    rw [List.foldlM_cons, hstep]
    exact ih (fun t ht => hrows t (List.mem_cons_of_mem _ ht)) _

theorem predict_eq {m : Forest α} (hfitted : m.trees ≠ []) {rows : List (List α)}
    (hrows : ∀ t ∈ m.trees, ∀ row ∈ rows, row.length = t.featureCount) :
    m.predict rows =
      .ok (rows.map fun row => Scalar.mean (m.trees.map fun t => t.root.predict row)) := by
  have hsums := foldlM_addPredictions hrows fun _ => 0
  rw [List.map_const'] at hsums
  rw [predict, if_neg (by simpa using hfitted), hsums]
  refine congrArg Except.ok ?_
  rw [List.map_map]
  refine List.map_congr_left fun row _ => ?_
  rw [Function.comp_apply, Scalar.mean, Scalar.sum, List.foldl_map, List.length_map]

theorem samples_ne_nil {count : Nat} (hcount : count ≠ 0) (rows : Nat) (g : Chance.Generator) :
    samples rows count g ≠ [] := by
  cases count with
  | zero => exact absurd rfl hcount
  | succ count =>
    rw [samples]
    exact List.cons_ne_nil _ _

/-- Every tree has as many rows as there are, all of them drawn from those. -/
theorem of_mem_samples {rows count : Nat} (hrows : 0 < rows) {g : Chance.Generator}
    {sample : List Nat} (h : sample ∈ samples rows count g) :
    sample ≠ [] ∧ ∀ i ∈ sample, i < rows := by
  induction count generalizing g with
  | zero => cases h
  | succ count ih =>
    rw [samples] at h
    rcases List.mem_cons.1 h with rfl | h
    · refine ⟨?_, fun i hi => Chance.lt_of_mem_positions hrows hi⟩
      rw [← List.length_pos_iff, Chance.length_positions]
      exact hrows
    · exact ih h

/-- Rows of one width with as many targets, some of them, are enough to grow a forest on. -/
theorem grow_eq {limits : ForestLimits} (hcount : limits.treeCount ≠ 0) {x : List (List α)}
    {y : List α} {width : Nat} (hrows : x.length = y.length)
    (hwidth : ∀ row ∈ x, row.length = width) (hy : y ≠ []) :
    grow limits x y = .ok
      ((samples y.length limits.treeCount (Chance.Generator.ofSeed limits.seed)).map
        (GrownTree.onSample limits.limits x y · width)) := by
  rw [grow, if_neg hcount, if_neg (by simpa using hy), mapM_ok_iff, List.forall₂_map_right_iff,
    List.forall₂_same]
  intro sample hsample
  obtain ⟨hne, hrange⟩ := of_mem_samples (List.length_pos_iff.2 hy) hsample
  exact GrownTree.ofSample_eq _ hrows hwidth hne hrange

end Forest
end Averages

section Range

variable {K : Type} [ExactNumber K] {low high : K} {x : List (List (Exact K))}
  {y : List (Exact K)} {width : Nat}

/-- No side of a cut goes without rows, and a leaf averages the targets of its own. -/
theorem Tree.grow_between (limits : TreeLimits) (featureCount : Nat) (depthLeft : Option Nat)
    {rows : List (Tree.Example (Exact K))} (hrows : rows ≠ [])
    (htargets : ∀ row ∈ rows, Exact.Between low high row.2) (row : List (Exact K)) :
    Exact.Between low high ((Tree.grow limits featureCount depthLeft rows).predict row) := by
  revert hrows htargets
  apply grow_induction (motive := fun _ rows t => rows ≠ [] →
    (∀ row ∈ rows, Exact.Between low high row.2) → Exact.Between low high (t.predict row))
  · intro _ rows hrows htargets
    exact Exact.mean_between (by simpa using hrows) (List.forall_mem_map.2 htargets)
  · intro _ rows cut left right hmade ihl ihr _ htargets
    have hleft := hmade.left
    have hright := hmade.right
    simp only [Cut.part, List.partition_eq_filter_filter] at hleft hright ihl ihr
    rw [predict]
    split
    · refine ihl (List.length_pos_iff.1 (by omega)) fun row hrow => ?_
      exact htargets row (List.mem_of_mem_filter hrow)
    · refine ihr (List.length_pos_iff.1 (by omega)) fun row hrow => ?_
      exact htargets row (List.mem_of_mem_filter hrow)

theorem GrownTree.onSample_between (limits : TreeLimits) {sample : List Nat} (hsample : sample ≠ [])
    (hrange : ∀ i ∈ sample, i < y.length) (htargets : ∀ v ∈ y, Exact.Between low high v)
    (row : List (Exact K)) :
    Exact.Between low high ((onSample limits x y sample width).root.predict row) := by
  refine Tree.grow_between limits width limits.maxDepth (by simpa [examples] using hsample) ?_ row
  refine List.forall_mem_map.2 fun i hi => htargets _ ?_
  change y.getD i 0 ∈ y
  rw [List.getD_eq_getElem?_getD, List.getElem?_eq_getElem (hrange i hi)]
  exact List.getElem_mem (hrange i hi)

/-- Rows of its width are answered one for one, none of them below `low` or above `high`. -/
def RowModel.StaysWithin (m : RowModel (Exact K)) (width : Nat) (low high : K) : Prop :=
  ∀ rows : List (List (Exact K)), (∀ row ∈ rows, row.length = width) →
    ∃ values, m.predict rows = .ok values ∧ values.length = rows.length ∧
      ∀ value ∈ values, Exact.Between low high value

/-- A tree is grown on all rows. -/
theorem DecisionTree.fit_between (m : DecisionTree (Exact K)) (hrows : x.length = y.length)
    (hwidth : ∀ row ∈ x, row.length = width) (hy : y ≠ [])
    (htargets : ∀ v ∈ y, Exact.Between low high v) :
    ∃ m', m.fit x y = (m', none) ∧ (RowModel.tree m').StaysWithin width low high := by
  have hsample : List.range y.length ≠ [] := by simpa using hy
  have hrange : ∀ i ∈ List.range y.length, i < y.length := fun _ => List.mem_range.1
  let grown := GrownTree.onSample m.limits x y (List.range y.length) width
  refine ⟨{ m with grown }, ?_, fun rows hrows =>
    ⟨_, grown.predict_eq hrows, List.length_map _, List.forall_mem_map.2 fun row _ => ?_⟩⟩
  · rw [fit, fitSample, GrownTree.ofSample_eq m.limits hrows hwidth hsample hrange]
  · exact GrownTree.onSample_between m.limits hsample hrange htargets row

/-- Each tree of a forest is grown on rows that were drawn. -/
theorem Forest.fit_between (m : Forest (Exact K)) (hrows : x.length = y.length)
    (hwidth : ∀ row ∈ x, row.length = width) (hy : y ≠ []) (hcount : m.limits.treeCount ≠ 0)
    (htargets : ∀ v ∈ y, Exact.Between low high v) :
    ∃ m', m.fit x y = (m', none) ∧ (RowModel.forest m').StaysWithin width low high := by
  let drawn := samples y.length m.limits.treeCount (Chance.Generator.ofSeed m.limits.seed)
  have hgrow : grow m.limits x y =
      .ok (drawn.map (GrownTree.onSample m.limits.limits x y · width)) :=
    grow_eq hcount hrows hwidth hy
  have hdrawn : drawn ≠ [] := samples_ne_nil hcount _ _
  refine ⟨_, by rw [fit, hgrow], fun rows hrows =>
    ⟨_, predict_eq (by simpa using hdrawn) (List.forall_mem_map.2 fun _ _ => hrows),
      List.length_map _, ?_⟩⟩
  refine List.forall_mem_map.2 fun row _ => Exact.mean_between (by simpa using hdrawn) ?_
  simp only [List.forall_mem_map]
  intro sample hsample
  obtain ⟨hne, hrange⟩ := of_mem_samples (List.length_pos_iff.2 hy) hsample
  exact GrownTree.onSample_between _ hne hrange htargets row

end Range

section Refused

variable {α : Type} [Scalar α] {x : List (List α)} {y : List α}

theorem GrownTree.ofSample_needs {limits : TreeLimits} {sample : List Nat} {t : GrownTree α}
    (h : ofSample limits x y sample = .ok t) : x.length = y.length ∧ sample ≠ [] := by
  unfold ofSample at h
  split_ifs at h with hrows
  refine ⟨not_not.1 hrows, ?_⟩
  rintro rfl
  cases h

theorem DecisionTree.fit_needs {m m' : DecisionTree α} (h : m.fit x y = (m', none)) :
    x.length = y.length ∧ y ≠ [] := by
  cases hgrown : GrownTree.ofSample m.limits x y (List.range y.length) with
  | error e => simp [fit, fitSample, hgrown] at h
  | ok t => simpa using GrownTree.ofSample_needs hgrown

theorem Forest.fit_needs {m m' : Forest α} (h : m.fit x y = (m', none)) :
    x.length = y.length ∧ y ≠ [] ∧ m.limits.treeCount ≠ 0 := by
  cases hgrown : grow m.limits x y with
  | error e => simp [fit, hgrown] at h
  | ok trees =>
    unfold grow at hgrown
    split_ifs at hgrown with hcount hy
    obtain ⟨sample, hsample⟩ := List.exists_mem_of_ne_nil _ (samples_ne_nil hcount _ _)
    obtain ⟨t, -, ht⟩ := forall₂_mem_left (mapM_ok_iff.1 hgrown) hsample
    exact ⟨(GrownTree.ofSample_needs ht).1, by simpa using hy, hcount⟩

def RowModel.treeCount : RowModel α → Nat
  | tree _ => 1
  | forest m => m.limits.treeCount

theorem RowModel.fit_needs {m : RowModel α} (h : (m.fit x y).2 = none) :
    x.length = y.length ∧ y ≠ [] ∧ m.treeCount ≠ 0 := by
  cases m with
  | tree m =>
    obtain ⟨m', hfit⟩ := snd_eq_none_iff.1 (show (m.fit x y).2 = none from h)
    obtain ⟨hrows, hy⟩ := DecisionTree.fit_needs hfit
    exact ⟨hrows, hy, one_ne_zero⟩
  | forest m =>
    obtain ⟨m', hfit⟩ := snd_eq_none_iff.1 (show (m.fit x y).2 = none from h)
    exact Forest.fit_needs hfit

end Refused

namespace RowModel

variable {K : Type} [ExactNumber K]

theorem fit_between (m : RowModel (Exact K)) {low high : K} {x : List (List (Exact K))}
    {y : List (Exact K)} {width : Nat} (hrows : x.length = y.length)
    (hwidth : ∀ row ∈ x, row.length = width) (hy : y ≠ []) (hcount : m.treeCount ≠ 0)
    (htargets : ∀ v ∈ y, Exact.Between low high v) :
    ∃ m', m.fit x y = (m', none) ∧ m'.StaysWithin width low high := by
  cases m with
  | tree m =>
    obtain ⟨m', hfit, hwithin⟩ := m.fit_between hrows hwidth hy htargets
    exact ⟨tree m', by rw [fit, hfit], hwithin⟩
  | forest m =>
    obtain ⟨m', hfit, hwithin⟩ := m.fit_between hrows hwidth hy hcount htargets
    exact ⟨forest m', by rw [fit, hfit], hwithin⟩

/-- A fit to rows of one width succeeds when there are as many targets as rows, some of them, and a
tree to grow. All rows of that width are then answered, missing and new features or not, and no answer
is below the lowest target or above the highest one. -/
theorem predictions_between (m : RowModel (Exact K)) {x : List (List (Exact K))} {y : List K}
    {width : Nat} (hwidth : ∀ row ∈ x, row.length = width) :
    ((m.fit x (y.map number)).2 = none ↔ x.length = y.length ∧ y ≠ [] ∧ m.treeCount ≠ 0) ∧
    ∀ m', m.fit x (y.map number) = (m', none) →
      ∃ low high, y.min? = some low ∧ y.max? = some high ∧ m'.StaysWithin width low high := by
  have hlength : (y.map number).length = y.length := List.length_map _
  have hempty : y.map number ≠ [] ↔ y ≠ [] := List.map_eq_nil_iff.not
  have hfits : x.length = y.length → y ≠ [] → m.treeCount ≠ 0 →
      ∃ low high, y.min? = some low ∧ y.max? = some high ∧
        ∃ m', m.fit x (y.map number) = (m', none) ∧ m'.StaysWithin width low high := by
    intro hrows hy hcount
    obtain ⟨low, high, hlow, hhigh, htargets⟩ := Exact.exists_range hy
    exact ⟨low, high, hlow, hhigh, m.fit_between (hrows.trans hlength.symm) hwidth (hempty.2 hy)
      hcount htargets⟩
  refine ⟨⟨fun h => ?_, fun ⟨hrows, hy, hcount⟩ => ?_⟩, fun m' hfit => ?_⟩
  · obtain ⟨hrows, hy, hcount⟩ := fit_needs h
    exact ⟨hrows.trans hlength, hempty.1 hy, hcount⟩
  · obtain ⟨low, high, -, -, m', hfit, -⟩ := hfits hrows hy hcount
    exact congrArg Prod.snd hfit
  · obtain ⟨hrows, hy, hcount⟩ := fit_needs (congrArg Prod.snd hfit)
    obtain ⟨low, high, hlow, hhigh, fitted, hfitted, hwithin⟩ :=
      hfits (hrows.trans hlength) (hempty.1 hy) hcount
    obtain rfl : fitted = m' := congrArg Prod.fst (hfitted.symm.trans hfit)
    exact ⟨low, high, hlow, hhigh, hwithin⟩

/-- A feature is missing in one of the three rows, and the new rows have none or a new one. -/
theorem threeRows_between :
    (∀ row ∈ [[number (1 : ℚ)], [nan], [number 3]], row.length = 1) ∧
    ∃ m' : RowModel (Exact ℚ),
      (forest (Forest.new ⟨4, ⟨none, 2, 1⟩, 7⟩)).fit [[number 1], [nan], [number 3]]
        [number 2, number 0, number 5] = (m', none) ∧
      ∃ values, m'.predict [[nan], [number 9]] = .ok values ∧ values.length = 2 ∧
        ∀ value ∈ values, Exact.Between 0 5 value := by
  have hwidth : ∀ row ∈ [[number (1 : ℚ)], [nan], [number 3]], row.length = 1 := by decide
  obtain ⟨hfits, hbetween⟩ := (forest (Forest.new ⟨4, ⟨none, 2, 1⟩, 7⟩)).predictions_between
    (y := [2, 0, 5]) hwidth
  refine ⟨hwidth, ?_⟩
  obtain ⟨m', hfit⟩ := snd_eq_none_iff.1 (hfits.2 ⟨rfl, by decide, by decide⟩)
  obtain ⟨low, high, hlow, hhigh, hwithin⟩ := hbetween m' hfit
  obtain rfl : 0 = low := Option.some.inj hlow
  obtain rfl : 5 = high := Option.some.inj hhigh
  exact ⟨m', hfit, hwithin [[nan], [number 9]] (by decide)⟩

end RowModel

end Infill
