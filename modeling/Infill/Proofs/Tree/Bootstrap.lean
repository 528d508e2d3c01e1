import Infill.Proofs.Tree.Growth

/-! Growing a tree on a sample without copying its rows. A node then carries the places of its rows,
and reads their features and targets from the table they stand in. Every step comes to what it is on
the copied rows, in the same order and with the same repeats, so that both ways grow the same nodes
whatever the arithmetic. -/

namespace Infill

variable {α : Type} [Scalar α]

namespace Tree

structure Source (α : Type) where
  features : List (List α)
  targets : List α

namespace Source

def row (s : Source α) (place : Nat) : List α := s.features.getD place []

def target (s : Source α) (place : Nat) : α := s.targets.getD place 0

def copy (s : Source α) (places : List Nat) : Source α :=
  ⟨places.map s.row, places.map s.target⟩

def isPure (s : Source α) (places : List Nat) : Bool :=
  match places with
  | [] => true
  | first :: _ => places.all fun place => s.target place == s.target first

def isSettled (s : Source α) (limits : TreeLimits) (depthLeft : Option Nat)
    (places : List Nat) : Bool :=
  depthLeft == some 0 || places.length < max limits.minSplit 2
    || places.length < 2 * max limits.minLeaf 1 || s.isPure places

def sortedFeature (s : Source α) (feature : Nat) (places : List Nat) : List (α × α) :=
  let known := places.filterMap fun place =>
    (Scalar.observed (s.row place)[feature]?).map fun x => (x, s.target place)
  known.mergeSort fun a b => Scalar.sortLe a.1 b.1

def nodeTotals (s : Source α) (minLeaf : Nat) (places : List Nat) : NodeTotals α :=
  ⟨places.length, Scalar.sum (places.map s.target), minLeaf⟩

def bestCut (s : Source α) (featureCount minLeaf : Nat) (places : List Nat) : Option (Cut α) :=
  let cuts := (List.range featureCount).flatMap fun feature =>
    cutsFrom (s.nodeTotals minLeaf places) feature 0 0 (s.sortedFeature feature places)
  cuts.foldl betterCut none

def nextCut (s : Source α) (limits : TreeLimits) (featureCount : Nat) (depthLeft : Option Nat)
    (places : List Nat) : Option (Cut α) :=
  if s.isSettled limits depthLeft places then none
  else s.bestCut featureCount (max limits.minLeaf 1) places

def part (s : Source α) (cut : Cut α) (places : List Nat) : List Nat × List Nat :=
  places.partition fun place => goesLeft cut.feature cut.threshold (s.row place)

/-- Grows a tree at the end of an array on the rows at the listed places. -/
def plant (s : Source α) (limits : TreeLimits) (featureCount : Nat) (depthLeft : Option Nat)
    (places : List Nat) : StateM (List (Node α)) Nat := do
  let root := (← get).length
  modify (· ++ [.leaf (Scalar.mean (places.map s.target))])
  match s.nextCut limits featureCount depthLeft places with
  | none => return root
  | some cut =>
    let (left, right) := s.part cut places
    if left.length < places.length ∧ right.length < places.length then
      let depthLeft := depthLeft.map (· - 1)
      let leftRoot ← s.plant limits featureCount depthLeft left
      let rightRoot ← s.plant limits featureCount depthLeft right
      modify (·.set root (.split cut.feature cut.threshold leftRoot rightRoot))
    return root
termination_by places.length
decreasing_by all_goals omega

variable (s : Source α)

def rows (places : List Nat) : List (Example α) := GrownTree.examples s.features s.targets places

theorem rows_eq (places : List Nat) :
    s.rows places = places.map fun place => (s.row place, s.target place) := rfl

theorem length_rows (places : List Nat) : (s.rows places).length = places.length :=
  List.length_map _

theorem map_snd_rows (places : List Nat) : (s.rows places).map (·.2) = places.map s.target := by
  rw [rows_eq, List.map_map]
  rfl

theorem isPure_rows (places : List Nat) : Tree.isPure (s.rows places) = s.isPure places := by
  cases places with
  | nil => rfl
  | cons first rest =>
    change ((s.rows (first :: rest)).all fun row => row.2 == s.target first) = _
    rw [rows_eq, List.all_map]
    rfl

theorem sortedFeature_rows (feature : Nat) (places : List Nat) :
    Tree.sortedFeature feature (s.rows places) = s.sortedFeature feature places := by
  rw [Tree.sortedFeature, rows_eq, List.filterMap_map]
  rfl

theorem nodeTotals_rows (minLeaf : Nat) (places : List Nat) :
    Tree.nodeTotals minLeaf (s.rows places) = s.nodeTotals minLeaf places := by
  rw [Tree.nodeTotals, length_rows, map_snd_rows, nodeTotals]

theorem bestCut_rows (featureCount minLeaf : Nat) (places : List Nat) :
    Tree.bestCut featureCount minLeaf (s.rows places) = s.bestCut featureCount minLeaf places := by
  simp only [Tree.bestCut, cuts, sortedFeature_rows, nodeTotals_rows, bestCut]

theorem nextCut_rows (limits : TreeLimits) (featureCount : Nat) (depthLeft : Option Nat)
    (places : List Nat) : Tree.nextCut limits featureCount depthLeft (s.rows places) =
      s.nextCut limits featureCount depthLeft places := by
  have hsettled : Tree.isSettled limits depthLeft (s.rows places) =
      s.isSettled limits depthLeft places := by
    rw [Tree.isSettled, isPure_rows, length_rows, isSettled]
  rw [Tree.nextCut, hsettled, bestCut_rows, nextCut]

/-- They part as their places do, and keep their order. -/
theorem part_rows (cut : Cut α) (places : List Nat) :
    cut.part (s.rows places) = (s.rows (s.part cut places).1, s.rows (s.part cut places).2) := by
  simp only [Cut.part, part, rows_eq, List.partition_eq_filter_filter, List.filter_map]
  rfl

/-- One node at a time: what it leaves behind in the array, before and after its sides. -/
theorem plant_run (limits : TreeLimits) (featureCount : Nat) (depthLeft : Option Nat)
    (places : List Nat) (nodes : List (Node α)) :
    s.plant limits featureCount depthLeft places nodes =
      match s.nextCut limits featureCount depthLeft places with
      | none => (nodes.length, nodes ++ [.leaf (Scalar.mean (places.map s.target))])
      | some cut =>
        let (left, right) := s.part cut places
        let start := nodes ++ [.leaf (Scalar.mean (places.map s.target))]
        if left.length < places.length ∧ right.length < places.length then
          let depthLeft := depthLeft.map (· - 1)
          let (leftRoot, nodesLeft) := s.plant limits featureCount depthLeft left start
          let (rightRoot, nodesRight) := s.plant limits featureCount depthLeft right nodesLeft
          (nodes.length,
            nodesRight.set nodes.length (.split cut.feature cut.threshold leftRoot rightRoot))
        else (nodes.length, start) := by
  rw [plant]
  cases s.nextCut limits featureCount depthLeft places with
  | none => rfl
  | some cut =>
    dsimp only
    split <;> rfl

/-- The nodes are those that grow on the rows themselves. -/
theorem plant_eq (limits : TreeLimits) (featureCount : Nat) (depthLeft : Option Nat)
    (places : List Nat) (nodes : List (Node α)) :
    s.plant limits featureCount depthLeft places nodes =
      Tree.plant limits featureCount depthLeft (s.rows places) nodes := by
  induction hcount : places.length using Nat.strong_induction_on
    generalizing depthLeft places nodes with
  | _ count ih =>
    subst hcount
    rw [plant_run, Tree.plant_run, nextCut_rows]
    cases s.nextCut limits featureCount depthLeft places with
    | none => rw [map_snd_rows]
    | some cut =>
      simp only [part_rows, length_rows, map_snd_rows]
      split_ifs with hsmaller
      · rw [ih _ hsmaller.1 _ _ _ rfl]
        generalize Tree.plant limits featureCount (depthLeft.map (· - 1))
          (s.rows (s.part cut places).1) _ = leftGrown
        obtain ⟨leftRoot, nodesLeft⟩ := leftGrown
        dsimp only
        rewrite [ih _ hsmaller.2 _ _ _ rfl]
        rfl
      · rfl

/-- The copies of the listed rows, each taken once, are the listed rows. -/
theorem rows_copy (places : List Nat) :
    (s.copy places).rows (List.range places.length) = s.rows places := by
  refine List.ext_getElem (by simp [length_rows]) fun i hi hi' => ?_
  have hplace : i < places.length := by rwa [length_rows] at hi'
  simp [rows_eq, copy, row, target, hplace]

end Source

end Tree

/-- A fit to listed rows is a fit to copies of them: both succeed and grow one tree, and its nodes
are those that grow on the places of the rows, in the table as well as among the copies. -/
theorem DecisionTree.fitSample_copies (m : DecisionTree α) {x : List (List α)} {y : List α}
    {sample : List Nat} {width : Nat} (hrows : x.length = y.length)
    (hwidth : ∀ row ∈ x, row.length = width) (hsample : sample ≠ [])
    (hrange : ∀ i ∈ sample, i < y.length) :
    ∃ g, m.fitSample x y sample = ({ m with grown := some g }, none) ∧
      m.fit (sample.map fun i => x.getD i []) (sample.map fun i => y.getD i 0) =
        ({ m with grown := some g }, none) ∧
      (Tree.Source.mk x y).plant m.limits width m.limits.maxDepth sample [] =
        (0, g.array.nodes) ∧
      ((Tree.Source.mk x y).copy sample).plant m.limits width m.limits.maxDepth
        (List.range sample.length) [] = (0, g.array.nodes) := by
  have hcopied : ∀ row ∈ sample.map fun i => x.getD i [], row.length = width := by
    intro row hrow
    obtain ⟨i, hi, rfl⟩ := List.mem_map.1 hrow
    have hlt : i < x.length := hrows ▸ hrange i hi
    rw [List.getD_eq_getElem?_getD, List.getElem?_eq_getElem hlt]
    exact hwidth _ (List.getElem_mem hlt)
  have hcopies : GrownTree.examples (sample.map fun i => x.getD i [])
      (sample.map fun i => y.getD i 0) (List.range sample.length) = GrownTree.examples x y sample :=
    (Tree.Source.mk x y).rows_copy sample
  refine ⟨GrownTree.onSample m.limits x y sample width, ?_, ?_, ?_, ?_⟩
  · rw [fitSample, GrownTree.ofSample_eq m.limits hrows hwidth hsample hrange]
  · rw [fit, fitSample, GrownTree.ofSample_eq m.limits (by simp) hcopied (by simpa using hsample)
      (by simp), List.length_map, GrownTree.onSample, hcopies, GrownTree.onSample]
  · rw [Tree.Source.plant_eq]
    exact Tree.plant_eq _ _ _ _ _
  · rw [Tree.Source.plant_eq, Tree.Source.rows_copy]
    exact Tree.plant_eq _ _ _ _ _

open Exact (number nan) in
/-- Of three rows one is listed three times, and another one is not listed. -/
theorem DecisionTree.repeatedRow_copies : ∃ g : GrownTree (Exact ℚ),
    (DecisionTree.new ⟨none, 2, 1⟩).fitSample [[number 1], [number 3], [nan]]
      [number 0, number 2, number 6] [2, 0, 2, 2] = (⟨⟨none, 2, 1⟩, some g⟩, none) ∧
    (DecisionTree.new ⟨none, 2, 1⟩).fit [[nan], [number 1], [nan], [nan]]
      [number 6, number 0, number 6, number 6] = (⟨⟨none, 2, 1⟩, some g⟩, none) ∧
    (Tree.Source.mk [[number 1], [number 3], [nan]] [number 0, number 2, number 6]).plant
      ⟨none, 2, 1⟩ 1 none [2, 0, 2, 2] [] = (0, g.array.nodes) ∧
    (Tree.Source.mk [[nan], [number 1], [nan], [nan]]
      [number 6, number 0, number 6, number 6]).plant
      ⟨none, 2, 1⟩ 1 none [0, 1, 2, 3] [] = (0, g.array.nodes) :=
  (DecisionTree.new ⟨none, 2, 1⟩).fitSample_copies rfl (by decide) (by decide) (by decide)

end Infill
