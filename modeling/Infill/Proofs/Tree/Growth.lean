import Infill.Proofs.Tree.Cut
import Infill.Proofs.Tree.Nodes

/-! Trees grow within their limits. Every cut that is made leaves enough rows on both of its sides, so
that no node goes without rows, and every node of a grown tree is what the rows make it that pass it
on their way through the finished tree. -/

namespace Infill

variable {α : Type} [Scalar α]

open Scalar (SortsNumbers Bisects)

namespace Tree

/-- What a node that is cut had, and what the cut leaves on its sides. -/
structure Cut.MadeOn (cut : Cut α) (limits : TreeLimits) (featureCount : Nat)
    (depthLeft : Option Nat) (rows : List (Example α)) : Prop where
  feature_lt : cut.feature < featureCount
  depthLeft_ne : depthLeft ≠ some 0
  enough : max 2 limits.minSplit ≤ rows.length
  left : max 1 limits.minLeaf ≤ (cut.part rows).1.length
  right : max 1 limits.minLeaf ≤ (cut.part rows).2.length

section Limits

variable [SortsNumbers α] [Bisects α] {limits : TreeLimits} {featureCount : Nat}
  {depthLeft : Option Nat} {rows : List (Example α)} {cut : Cut α}

theorem nextCut_madeOn (h : nextCut limits featureCount depthLeft rows = some cut) :
    cut.MadeOn limits featureCount depthLeft rows := by
  unfold nextCut at h
  split_ifs at h with hsettled
  simp only [isSettled, Bool.or_eq_true, not_or, decide_eq_true_eq, beq_iff_eq] at hsettled
  obtain ⟨⟨⟨hdepth, hsplit⟩, -⟩, -⟩ := hsettled
  obtain ⟨hfeature, hleft, hright⟩ := bestCut_parts h
  exact ⟨hfeature, hdepth, by omega, by omega, by omega⟩

/-- A cut always parts the rows, and the sides of a node are smaller than the node. -/
theorem part_smaller (h : nextCut limits featureCount depthLeft rows = some cut) :
    (cut.part rows).1.length < rows.length ∧ (cut.part rows).2.length < rows.length := by
  obtain ⟨-, -, -, hleft, hright⟩ := nextCut_madeOn h
  have hall := cut.length_part rows
  omega

/-- What holds of leaves, and of splits whose sides it holds of, holds of every grown tree. -/
theorem grow_induction {motive : Option Nat → List (Example α) → Tree α → Prop}
    (leaf : ∀ depthLeft rows, motive depthLeft rows (leafOf rows))
    (split : ∀ depthLeft rows (cut : Cut α) left right,
      cut.MadeOn limits featureCount depthLeft rows →
      motive (depthLeft.map (· - 1)) (cut.part rows).1 left →
      motive (depthLeft.map (· - 1)) (cut.part rows).2 right →
      motive depthLeft rows (split cut.feature cut.threshold left right))
    (depthLeft : Option Nat) (rows : List (Example α)) :
    motive depthLeft rows (grow limits featureCount depthLeft rows) := by
  fun_induction grow limits featureCount depthLeft rows with
  | case1 depthLeft rows hcut => exact leaf depthLeft rows
  | case2 depthLeft rows cut hcut left right hpart hsmaller depthLeft' ihl ihr =>
    have hmade := nextCut_madeOn hcut
    refine split depthLeft rows cut _ _ hmade ?_ ?_
    · rwa [hpart]
    · rwa [hpart]
  | case3 depthLeft rows => exact leaf depthLeft rows

theorem depth_grow_le {d : Nat} (rows : List (Example α)) :
    (grow limits featureCount (some d) rows).depth ≤ d := by
  have key : ∀ depthLeft (rows : List (Example α)), ∀ d, depthLeft = some d →
      (grow limits featureCount depthLeft rows).depth ≤ d := by
    apply grow_induction (motive := fun depthLeft _ t => ∀ d, depthLeft = some d → t.depth ≤ d)
    · exact fun _ _ d _ => Nat.zero_le d
    intro depthLeft rows cut left right hmade ihl ihr d hd
    subst hd
    have hd : d ≠ 0 := fun h => hmade.depthLeft_ne (congrArg some h)
    have hleft := ihl (d - 1) rfl
    have hright := ihr (d - 1) rfl
    rw [depth]
    omega
  exact key _ rows d rfl

end Limits

/-- The rows that pass the node `p` places behind the root. -/
def passing (t : Tree α) (place p : Nat) (rows : List (Example α)) : List (Example α) :=
  rows.filter fun row => decide (place + p ∈ t.routeFrom row.1 place)

theorem passing_root (t : Tree α) (place : Nat) (rows : List (Example α)) :
    t.passing place 0 rows = rows :=
  List.filter_eq_self.2 fun row _ => decide_eq_true (t.head_routeFrom row.1 place)

section Passing

variable {cut : Cut α} {left right : Tree α} {place q : Nat}

theorem passing_left (hq : q < left.nodeCount) (rows : List (Example α)) :
    (split cut.feature cut.threshold left right).passing place (q + 1) rows =
      left.passing (place + 1) q (cut.part rows).1 := by
  rw [passing, passing, Cut.part, List.partition_eq_filter_filter, List.filter_filter]
  refine List.filter_congr fun row _ => ?_
  rw [Bool.eq_iff_iff, Bool.and_eq_true, decide_eq_true_iff, decide_eq_true_iff,
    mem_routeFrom_left hq, and_comm]

theorem passing_right (rows : List (Example α)) :
    (split cut.feature cut.threshold left right).passing place (q + 1 + left.nodeCount) rows =
      right.passing (place + 1 + left.nodeCount) q (cut.part rows).2 := by
  rw [passing, passing, Cut.part, List.partition_eq_filter_filter, List.filter_filter]
  refine List.filter_congr fun row _ => ?_
  rw [Bool.eq_iff_iff, Bool.and_eq_true, decide_eq_true_iff, decide_eq_true_iff,
    mem_routeFrom_right, and_comm]
  simp

end Passing

/-- What a node has to do with the rows that pass it; a leaf at the root may have any number of
them. -/
def NodeServes (limits : TreeLimits) (featureCount : Nat) (atRoot : Prop)
    (rows : List (Example α)) : Node α → Prop
  | .leaf value =>
    value = Scalar.mean (rows.map (·.2)) ∧ (atRoot ∨ max 1 limits.minLeaf ≤ rows.length)
  | .split feature _ _ _ => feature < featureCount ∧ max 2 limits.minSplit ≤ rows.length

theorem NodeServes.below {limits : TreeLimits} {featureCount : Nat} {atRoot other : Prop}
    {rows : List (Example α)} {node : Node α} (h : NodeServes limits featureCount atRoot rows node)
    (hroot : atRoot → max 1 limits.minLeaf ≤ rows.length) :
    NodeServes limits featureCount other rows node := by
  cases node with
  | leaf value => exact ⟨h.1, .inr (h.2.elim hroot id)⟩
  | split feature threshold left right => exact h

/-- Every node of a grown tree serves the rows that pass it. -/
theorem grow_serves [SortsNumbers α] [Bisects α] {limits : TreeLimits} {featureCount : Nat}
    {depthLeft : Option Nat} {rows : List (Example α)} {place p : Nat} {node : Node α}
    (h : ((grow limits featureCount depthLeft rows).listFrom place)[p]? = some node) :
    NodeServes limits featureCount (p = 0)
      ((grow limits featureCount depthLeft rows).passing place p rows) node := by
  revert place p node
  apply grow_induction (motive := fun _ rows t => ∀ {place p : Nat} {node : Node α},
    (t.listFrom place)[p]? = some node →
      NodeServes limits featureCount (p = 0) (t.passing place p rows) node)
  · intro _ rows place p node h
    rcases p with - | p
    · obtain rfl := Option.some.inj h
      rw [passing_root]
      exact ⟨rfl, .inl rfl⟩
    · cases h
  · intro _ rows cut left right hmade ihl ihr place p node h
    rcases getElem?_listFrom_split h with ⟨rfl, rfl⟩ | ⟨q, rfl, hq, hnode⟩ | ⟨q, rfl, hnode⟩
    · rw [passing_root]
      exact ⟨hmade.feature_lt, hmade.enough⟩
    · rw [passing_left hq]
      refine (ihl hnode).below fun hroot => ?_
      subst hroot
      rw [passing_root]
      exact hmade.left
    · rw [passing_right]
      refine (ihr hnode).below fun hroot => ?_
      subst hroot
      rw [passing_root]
      exact hmade.right

end Tree

namespace GrownTree

def examples (x : List (List α)) (y : List α) (sample : List Nat) : List (Tree.Example α) :=
  sample.map fun i => (x.getD i [], y.getD i 0)

/-- The listed rows that pass a place of a tree. -/
def passing (g : GrownTree α) (x : List (List α)) (sample : List Nat) (place : Nat) : List Nat :=
  sample.filter fun i => decide (place ∈ g.array.route (x.getD i []) 0)

def ending (g : GrownTree α) (x : List (List α)) (sample : List Nat) (place : Nat) : List Nat :=
  sample.filter fun i => decide ((g.array.route (x.getD i []) 0).getLast? = some place)

/-- A tree that is grown on the listed rows within the limits. -/
structure GrownOn (g : GrownTree α) (limits : TreeLimits) (x : List (List α)) (y : List α)
    (sample : List Nat) (width : Nat) : Prop where
  /-- The array of its nodes is what is grown in place. -/
  planted : Tree.plant limits width limits.maxDepth (examples x y sample) [] = (0, g.array.nodes)
  /-- No node is a leaf because its cut parts nothing. -/
  parts : ∀ depthLeft (rows : List (Tree.Example α)) cut,
    Tree.nextCut limits width depthLeft rows = some cut →
      (cut.part rows).1.length < rows.length ∧ (cut.part rows).2.length < rows.length
  sides : ∀ place feature threshold left right,
    g.array.nodes[place]? = some (.split feature threshold left right) →
      feature < width ∧ (place < left ∧ left < g.array.nodes.length) ∧
        place < right ∧ right < g.array.nodes.length
  predicts : ∀ row : List α, row.length = width → ∃ place value,
    (g.array.route row 0).getLast? = some place ∧ g.array.nodes[place]? = some (.leaf value) ∧
      g.predictRow row = .ok value
  depth : ∀ d, limits.maxDepth = some d → g.root.depth ≤ d
  splits : ∀ place feature threshold left right,
    g.array.nodes[place]? = some (.split feature threshold left right) →
      max 2 limits.minSplit ≤ (g.passing x sample place).length
  leaves : ∀ place value, g.array.nodes[place]? = some (.leaf value) → place ≠ 0 →
    max 1 limits.minLeaf ≤ (g.passing x sample place).length
  /-- The targets are averaged in the order of the list. -/
  means : ∀ place value, g.array.nodes[place]? = some (.leaf value) →
    value = Scalar.mean ((g.ending x sample place).map (y.getD · 0))

variable {x : List (List α)} {y : List α} {sample : List Nat} {width : Nat}

theorem array_route (g : GrownTree α) (row : List α) :
    g.array.route row 0 = g.root.routeFrom row 0 := by
  have hnodes : g.array.nodes = [] ++ (g.root.listFrom 0 ++ []) := by simp [array]
  exact Tree.route_eq_routeFrom List.length_nil hnodes row

theorem passing_examples (g : GrownTree α) (x : List (List α)) (y : List α) (sample : List Nat)
    (place : Nat) :
    g.root.passing 0 place (examples x y sample) = examples x y (g.passing x sample place) := by
  rw [Tree.passing, examples, List.filter_map, passing, examples]
  congr 1
  refine List.filter_congr fun i _ => ?_
  simp [array_route]

/-- Rows that pass a leaf end there. -/
theorem ending_eq_passing {g : GrownTree α} {place : Nat} {value : α}
    (h : g.array.nodes[place]? = some (.leaf value)) :
    g.ending x sample place = g.passing x sample place := by
  refine List.filter_congr fun i _ => ?_
  have hends : 0 + place ∈ g.root.routeFrom (x.getD i []) 0 ↔
      (g.root.routeFrom (x.getD i []) 0).getLast? = some (0 + place) := Tree.mem_routeFrom_leaf h
  rw [Nat.zero_add] at hends
  simp only [array_route, hends]

def onSample (limits : TreeLimits) (x : List (List α)) (y : List α) (sample : List Nat)
    (width : Nat) : GrownTree α :=
  ⟨Tree.grow limits width limits.maxDepth (examples x y sample), width⟩

/-- Rows of one width that are there are enough to grow a tree on. -/
theorem ofSample_eq (limits : TreeLimits) (hrows : x.length = y.length)
    (hwidth : ∀ row ∈ x, row.length = width) (hsample : sample ≠ [])
    (hrange : ∀ i ∈ sample, i < y.length) :
    ofSample limits x y sample = .ok (onSample limits x y sample width) := by
  have hlisted : sample.filterMap ((x.zip y).toArray[·]?) = examples x y sample := by
    rw [examples, ← List.filterMap_eq_map]
    refine List.filterMap_congr fun i hi => ?_
    have hy := hrange i hi
    have hx : i < x.length := hrows ▸ hy
    simp [hx, hy]
  obtain ⟨i, rest, rfl⟩ := List.exists_cons_of_ne_nil hsample
  have hfirst : (x.getD i []).length = width := by
    have hi : i < x.length := hrows ▸ hrange i List.mem_cons_self
    rw [List.getD_eq_getElem?_getD, List.getElem?_eq_getElem hi]
    exact hwidth _ (List.getElem_mem hi)
  rw [ofSample, if_neg (not_not.2 hrows)]
  dsimp only
  rw [hlisted, examples, List.map_cons]
  dsimp only
  rw [hfirst]
  rfl

section Growth

variable [SortsNumbers α] [Bisects α] {limits : TreeLimits}

theorem onSample_serves {place : Nat} {node : Node α}
    (h : (onSample limits x y sample width).array.nodes[place]? = some node) :
    Tree.NodeServes limits width (place = 0)
      (examples x y ((onSample limits x y sample width).passing x sample place)) node := by
  rw [← passing_examples]
  exact Tree.grow_serves h

theorem onSample_grownOn (limits : TreeLimits) (x : List (List α)) (y : List α)
    (sample : List Nat) (width : Nat) :
    (onSample limits x y sample width).GrownOn limits x y sample width where
  planted := Tree.plant_eq _ _ _ _ _
  parts _ _ _ h := Tree.part_smaller h
  sides _ _ _ _ _ h := ⟨(onSample_serves h).1, NodeArray.linked _ _ _ _ _ _ h⟩
  predicts row hrow := by
    obtain ⟨p, hlast, hnode⟩ := (onSample limits x y sample width).root.routeFrom_ends row 0
    rw [Nat.zero_add, ← array_route] at hlast
    exact ⟨p, _, hlast, hnode, if_pos hrow⟩
  depth d hd := by
    rw [onSample, hd]
    exact Tree.depth_grow_le _
  splits _ _ _ _ _ h := by
    have henough := (onSample_serves h).2
    rwa [examples, List.length_map] at henough
  leaves _ _ h hroot := by
    have henough := (onSample_serves h).2.resolve_left hroot
    rwa [examples, List.length_map] at henough
  means _ _ h := by
    rw [ending_eq_passing h, (onSample_serves h).1, examples, List.map_map]
    rfl

end Growth

end GrownTree

/-- On rows of one width with as many targets a fit to rows that are there succeeds, and grows a tree
within the limits of the model. -/
theorem DecisionTree.fitSample_grows [SortsNumbers α] [Bisects α] (m : DecisionTree α)
    {x : List (List α)} {y : List α} {sample : List Nat} {width : Nat} (hrows : x.length = y.length)
    (hwidth : ∀ row ∈ x, row.length = width) (hsample : sample ≠ [])
    (hrange : ∀ i ∈ sample, i < y.length) :
    ∃ g, m.fitSample x y sample = ({ m with grown := some g }, none) ∧
      g.GrownOn m.limits x y sample width := by
  refine ⟨GrownTree.onSample m.limits x y sample width, ?_, GrownTree.onSample_grownOn _ _ _ _ _⟩
  rw [fitSample, GrownTree.ofSample_eq m.limits hrows hwidth hsample hrange]

open Exact (number nan) in
/-- A row without its feature is listed twice, on either side of another row. -/
theorem DecisionTree.repeatedRow_grows : ∃ g : GrownTree (Exact ℚ),
    (DecisionTree.new ⟨none, 2, 1⟩).fitSample [[number 1], [number 3], [nan]]
      [number 0, number 0, number 6] [0, 2, 1, 2] = (⟨⟨none, 2, 1⟩, some g⟩, none) ∧
    g.GrownOn ⟨none, 2, 1⟩ [[number 1], [number 3], [nan]] [number 0, number 0, number 6]
      [0, 2, 1, 2] 1 :=
  (DecisionTree.new ⟨none, 2, 1⟩).fitSample_grows rfl (by decide) (by decide) (by decide)

end Infill
