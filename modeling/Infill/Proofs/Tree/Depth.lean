import Mathlib.Data.List.GetD
import Infill.Proofs.Tree.BestCut
import Infill.Proofs.Tree.Growth

/-! What a limit on the depth does. Down to the limit a tree is the one that grows with a greater
limit, or with none, and at the limit there are leaves. So rows that end at the same leaf of the
deeper tree end at the same leaf of the shallower one, and in exact arithmetic the deeper tree fits
the rows on which both grew at least as well. -/

namespace Infill

variable {α : Type}

namespace Tree

/-- The node to which a list of sides leads from the root, left sides being true. -/
def nodeAt? : Tree α → List Bool → Option (Tree α)
  | t, [] => some t
  | leaf _, _ :: _ => none
  | split _ _ left right, side :: sides =>
    if side then left.nodeAt? sides else right.nodeAt? sides

/-- What a node says of itself: the value of a leaf, or where rows part. -/
def label : Tree α → α ⊕ Nat × α
  | leaf value => .inl value
  | split feature threshold _ _ => .inr (feature, threshold)

section Growing

variable [Scalar α] {limits : TreeLimits} {featureCount : Nat}

/-- The sides that a row takes to its leaf. -/
def path (row : List α) : Tree α → List Bool
  | leaf _ => []
  | split feature threshold left right =>
    goesLeft feature threshold row ::
      if goesLeft feature threshold row then left.path row else right.path row

/-- A tree grows by the depth that is left, whatever limit that comes from. -/
theorem grow_maxDepth (maxDepth depthLeft : Option Nat) (rows : List (Example α)) :
    grow { limits with maxDepth } featureCount depthLeft rows =
      grow limits featureCount depthLeft rows := by
  have hcut : ∀ (depthLeft : Option Nat) (rows : List (Example α)),
      nextCut { limits with maxDepth } featureCount depthLeft rows =
        nextCut limits featureCount depthLeft rows := fun _ _ => rfl
  fun_induction grow limits featureCount depthLeft rows with
  | case1 depthLeft rows hnone => rw [grow, hcut, hnone]
  | case2 depthLeft rows cut hsome left right hpart hsmaller depthLeft' ihl ihr =>
    rw [grow, hcut, hsome]
    simp only [hpart, if_pos hsmaller]
    rw [ihl, ihr]
  | case3 depthLeft rows cut hsome left right hpart hsmaller =>
    rw [grow, hcut, hsome]
    simp only [hpart, if_neg hsmaller]

/-- The depth counts only where it is used up. -/
theorem grow_of_depthLeft {depthLeft : Option Nat} (h : depthLeft ≠ some 0)
    (rows : List (Example α)) : grow limits featureCount depthLeft rows =
      match nextCut limits featureCount none rows with
      | none => leafOf rows
      | some cut =>
        if (cut.part rows).1.length < rows.length ∧ (cut.part rows).2.length < rows.length then
          split cut.feature cut.threshold
            (grow limits featureCount (depthLeft.map (· - 1)) (cut.part rows).1)
            (grow limits featureCount (depthLeft.map (· - 1)) (cut.part rows).2)
        else leafOf rows := by
  have hcut : nextCut limits featureCount depthLeft rows =
      nextCut limits featureCount none rows := by
    have hsettled : isSettled limits depthLeft rows = isSettled limits none rows := by
      simp [isSettled, beq_eq_false_iff_ne.2 h]
    rw [nextCut, nextCut, hsettled]
  rewrite [grow, hcut]
  rfl

theorem grow_zero (rows : List (Example α)) :
    grow limits featureCount (some 0) rows = leafOf rows := by
  have hcut : nextCut limits featureCount (some 0) rows = none := by simp [nextCut, isSettled]
  rw [grow, hcut]

/-- Two trees that grow on the same rows, the second to a greater depth: they meet at leaves and at
splits, or the first is at its limit. -/
theorem grow_deeper_induction {motive : Nat → List (Example α) → Tree α → Tree α → Prop}
    (limit : ∀ rows deeper, motive 0 rows (leafOf rows) (grow limits featureCount deeper rows))
    (leaf : ∀ d rows, motive (d + 1) rows (leafOf rows) (leafOf rows))
    (split : ∀ d rows (cut : Cut α) left right left' right',
      motive d (cut.part rows).1 left left' → motive d (cut.part rows).2 right right' →
      motive (d + 1) rows (split cut.feature cut.threshold left right)
        (split cut.feature cut.threshold left' right'))
    {d : Nat} {deeper : Option Nat} (hdeeper : ∀ e ∈ deeper, d ≤ e) (rows : List (Example α)) :
    motive d rows (grow limits featureCount (some d) rows)
      (grow limits featureCount deeper rows) := by
  induction d generalizing deeper rows with
  | zero =>
    rw [grow_zero]
    exact limit rows deeper
  | succ d ih =>
    have hdeep : deeper ≠ some 0 := fun h => Nat.not_succ_le_zero d (hdeeper 0 h)
    have hbelow : ∀ e ∈ deeper.map (· - 1), d ≤ e := by
      intro e he
      obtain ⟨limit, hlimit, rfl⟩ := Option.map_eq_some_iff.1 he
      exact Nat.le_sub_one_of_lt (hdeeper limit hlimit)
    have hshallow : some (d + 1) ≠ some 0 := by simp
    rw [grow_of_depthLeft hshallow, grow_of_depthLeft hdeep]
    cases nextCut limits featureCount none rows with
    | none => exact leaf d rows
    | some cut =>
      dsimp only
      split_ifs with hparts
      · exact split d rows cut _ _ _ _ (ih hbelow _) (ih hbelow _)
      · exact leaf d rows

theorem label_grow {d : Nat} {deeper : Option Nat} (hdeeper : ∀ e ∈ deeper, d ≤ e)
    (rows : List (Example α)) {sides : List Bool} (hsides : sides.length < d) :
    ((grow limits featureCount (some d) rows).nodeAt? sides).map label =
      ((grow limits featureCount deeper rows).nodeAt? sides).map label := by
  revert sides
  apply grow_deeper_induction (motive := fun d _ shallow deep => ∀ {sides : List Bool},
    sides.length < d → (shallow.nodeAt? sides).map label = (deep.nodeAt? sides).map label) _ _ _
      hdeeper
  · intro _ _ sides hsides
    exact absurd hsides (Nat.not_lt_zero _)
  · exact fun _ _ _ _ => rfl
  · intro d _ cut left right left' right' ihl ihr sides hsides
    rcases sides with - | ⟨side | side, sides⟩
    · rfl
    · exact ihr (Nat.lt_of_succ_lt_succ hsides)
    · exact ihl (Nat.lt_of_succ_lt_succ hsides)

theorem path_grow {d : Nat} {deeper : Option Nat} (hdeeper : ∀ e ∈ deeper, d ≤ e)
    (rows : List (Example α)) (row : List α) :
    (grow limits featureCount (some d) rows).path row =
      ((grow limits featureCount deeper rows).path row).take d := by
  apply grow_deeper_induction (motive := fun d _ shallow deep =>
    shallow.path row = (deep.path row).take d) _ _ _ hdeeper
  · exact fun _ _ => (List.take_zero).symm
  · exact fun _ _ => rfl
  · intro d _ cut left right left' right' ihl ihr
    rw [path, path, List.take_succ_cons]
    congr 1
    split
    · exact ihl
    · exact ihr

end Growing

section Routes

variable [Scalar α]

theorem routeFrom_ends_within (t : Tree α) (row : List α) (place : Nat) :
    ∃ p, (t.routeFrom row place).getLast? = some (place + p) ∧ p < t.nodeCount := by
  obtain ⟨p, hlast, hnode⟩ := t.routeFrom_ends row place
  refine ⟨p, hlast, ?_⟩
  rw [← t.length_listFrom place]
  exact (List.getElem?_eq_some_iff.1 hnode).1

/-- Rows end at the same place if they take the same sides. -/
theorem path_eq_iff (t : Tree α) (row row' : List α) (place : Nat) : t.path row = t.path row' ↔
    (t.routeFrom row place).getLast? = (t.routeFrom row' place).getLast? := by
  induction t generalizing place with
  | leaf value => exact iff_of_true rfl rfl
  | split feature threshold left right ihl ihr =>
    have hleft := fun row => left.routeFrom_ends_within row (place + 1)
    have hright := fun row => right.routeFrom_ends_within row (place + 1 + left.nodeCount)
    rw [path, path]
    cases hside : goesLeft feature threshold row <;>
      cases hside' : goesLeft feature threshold row'
    · obtain ⟨p, hlast, -⟩ := hright row
      obtain ⟨p', hlast', -⟩ := hright row'
      rw [getLast?_routeFrom_right hside hlast, getLast?_routeFrom_right hside' hlast', ← hlast,
        ← hlast', ← ihr]
      simp
    · obtain ⟨p, hlast, -⟩ := hright row
      obtain ⟨p', hlast', hp'⟩ := hleft row'
      rw [getLast?_routeFrom_right hside hlast, getLast?_routeFrom_left hside' hlast',
        Option.some_inj]
      exact iff_of_false (by simp) (by omega)
    · obtain ⟨p, hlast, hp⟩ := hleft row
      obtain ⟨p', hlast', -⟩ := hright row'
      rw [getLast?_routeFrom_left hside hlast, getLast?_routeFrom_right hside' hlast',
        Option.some_inj]
      exact iff_of_false (by simp) (by omega)
    · obtain ⟨p, hlast, -⟩ := hleft row
      obtain ⟨p', hlast', -⟩ := hleft row'
      rw [getLast?_routeFrom_left hside hlast, getLast?_routeFrom_left hside' hlast', ← hlast,
        ← hlast', ← ihl]
      simp

end Routes

def error [Scalar α] (t : Tree α) (rows : List (Example α)) : α :=
  Scalar.sum (rows.map fun row => Scalar.square (row.2 - t.predict row.1))

section Errors

open Exact (number)

variable {K : Type} [ExactNumber K] {limits : TreeLimits} {featureCount : Nat}

theorem error_leafOf (rows : List (List (Exact K) × K)) :
    (leafOf (numbered rows)).error (numbered rows) = number (squaredError (rows.map (·.2))) := by
  rcases eq_or_ne rows [] with rfl | hrows
  · simp [error, numbered, squaredError, squaresAround]
    rfl
  have hmean : Scalar.mean ((numbered rows).map (·.2)) =
      number ((rows.map (·.2)).sum / (rows.map (·.2)).length) := by
    rw [← Exact.mean_numbers (by simpa using hrows), numbered, List.map_map, List.map_map]
    rfl
  rw [squaredError, squaresAround, error, leafOf, hmean, numbered, List.map_map, List.map_map]
  exact Exact.sum_squares _ rows

theorem error_split (cut : Cut (Exact K)) (left right : Tree (Exact K))
    (rows : List (Example (Exact K))) :
    (split cut.feature cut.threshold left right).error rows =
      left.error (cut.part rows).1 + right.error (cut.part rows).2 := by
  rw [Cut.part, List.partition_eq_filter_filter, error,
    ← Scalar.SumsUnordered.sum_perm ((List.filter_append_perm _ rows).map _), List.map_append,
    Exact.sum_append]
  congr 2
  · refine List.map_congr_left fun row hrow => ?_
    rw [predict, if_pos (List.mem_filter.1 hrow).2]
  · refine List.map_congr_left fun row hrow => ?_
    have hside := (List.mem_filter.1 hrow).2
    rw [predict, if_neg (by simpa using hside)]

theorem part_numbered (cut : Cut (Exact K)) (rows : List (List (Exact K) × K)) :
    ∃ left right, cut.part (numbered rows) = (numbered left, numbered right) ∧
      (left ++ right).Perm rows := by
  let side : List (Exact K) × K → Bool := fun row => goesLeft cut.feature cut.threshold row.1
  refine ⟨rows.filter side, rows.filter (!side ·), ?_, List.filter_append_perm _ _⟩
  rw [Cut.part, List.partition_eq_filter_filter, numbered, List.filter_map, List.filter_map]
  rfl

theorem error_grow_le (depthLeft : Option Nat) (rows : List (List (Exact K) × K)) :
    (grow limits featureCount depthLeft (numbered rows)).error (numbered rows) ≤
      number (squaredError (rows.map (·.2))) := by
  have key : ∀ (depthLeft : Option Nat) (examples : List (Example (Exact K))),
      ∀ rows, examples = numbered rows →
        (grow limits featureCount depthLeft examples).error examples ≤
          number (squaredError (rows.map (·.2))) := by
    apply grow_induction (motive := fun _ examples t => ∀ rows, examples = numbered rows →
      t.error examples ≤ number (squaredError (rows.map (·.2))))
    · rintro _ _ rows rfl
      rw [error_leafOf]
      exact Scalar.OrdersNumbers.le_refl rfl
    · rintro _ _ cut left right - ihl ihr rows rfl
      obtain ⟨l, r, hpart, hperm⟩ := part_numbered cut rows
      rw [hpart] at ihl ihr
      have hsides := Exact.add_mono (ihl l rfl) (ihr r rfl)
      have hparted : squaredError (l.map (·.2)) + squaredError (r.map (·.2)) ≤
          squaredError (rows.map (·.2)) := by
        rw [← squaredError_perm (hperm.map _), List.map_append]
        exact squaredError_append_le _ _
      rw [error_split, hpart]
      exact Scalar.OrdersNumbers.le_trans hsides hparted
  exact key depthLeft _ rows rfl

theorem error_deeper_le {d : Nat} {deeper : Option Nat} (hdeeper : ∀ e ∈ deeper, d ≤ e)
    (rows : List (List (Exact K) × K)) :
    (grow limits featureCount deeper (numbered rows)).error (numbered rows) ≤
      (grow limits featureCount (some d) (numbered rows)).error (numbered rows) := by
  have key : ∀ examples : List (Example (Exact K)), ∀ rows, examples = numbered rows →
      (grow limits featureCount deeper examples).error examples ≤
        (grow limits featureCount (some d) examples).error examples := by
    apply grow_deeper_induction (motive := fun _ examples shallow deep =>
      ∀ rows, examples = numbered rows → deep.error examples ≤ shallow.error examples) _ _ _ hdeeper
    · rintro _ deeper rows rfl
      rw [error_leafOf]
      exact error_grow_le deeper rows
    · rintro _ _ rows rfl
      rw [error_leafOf]
      exact Scalar.OrdersNumbers.le_refl rfl
    · rintro _ _ cut left right left' right' ihl ihr rows rfl
      obtain ⟨l, r, hpart, -⟩ := part_numbered cut rows
      rw [hpart] at ihl ihr
      rw [error_split, error_split, hpart]
      exact Exact.add_mono (ihl l rfl) (ihr r rfl)
  exact key _ rows rfl

end Errors

end Tree

namespace DecisionTree

variable [Scalar α]

/-- A new model with this limit on the depth is fitted, and this is its tree. -/
def Fits (limits : TreeLimits) (maxDepth : Option Nat) (x : List (List α)) (y : List α)
    (sample : List Nat) (g : GrownTree α) : Prop :=
  (new { limits with maxDepth }).fitSample x y sample = (⟨{ limits with maxDepth }, some g⟩, none)

theorem fits_grow (limits : TreeLimits) (maxDepth : Option Nat) {x : List (List α)}
    {y : List α} {sample : List Nat} {width : Nat} (hrows : x.length = y.length)
    (hwidth : ∀ row ∈ x, row.length = width) (hsample : sample ≠ [])
    (hrange : ∀ i ∈ sample, i < y.length) : Fits limits maxDepth x y sample
      ⟨Tree.grow limits width maxDepth (GrownTree.examples x y sample), width⟩ := by
  rw [Fits, fitSample, new, GrownTree.ofSample_eq _ hrows hwidth hsample hrange,
    GrownTree.onSample, Tree.grow_maxDepth]

end DecisionTree

def GrownTree.error [Scalar α] (g : GrownTree α) (x : List (List α)) (y : List α)
    (sample : List Nat) : α :=
  Scalar.sum (sample.map fun i => Scalar.square (y.getD i 0 - g.root.predict (x.getD i [])))

theorem GrownTree.error_eq [Scalar α] (g : GrownTree α) (x : List (List α)) (y : List α)
    (sample : List Nat) : g.error x y sample = g.root.error (examples x y sample) := by
  rw [error, Tree.error, examples, List.map_map]
  rfl

/-- The rows of a sample, with targets that are numbers. -/
theorem GrownTree.examples_numbers {K : Type} [ExactNumber K] (x : List (List (Exact K)))
    (ys : List K) (sample : List Nat) : examples x (ys.map Exact.number) sample =
      Tree.numbered (sample.map fun i => (x.getD i [], ys.getD i 0)) := by
  rw [examples, Tree.numbered, List.map_map]
  refine List.map_congr_left fun i _ => Prod.ext rfl ?_
  exact List.getD_map ys 0 Exact.number

/-- A tree that goes on where another one stops at depth `d`. -/
structure GrownTree.Refines [Scalar α] (deep shallow : GrownTree α) (d : Nat) : Prop where
  /-- Above that depth both have the same nodes. -/
  nodes : ∀ sides : List Bool, sides.length < d →
    (shallow.root.nodeAt? sides).map Tree.label = (deep.root.nodeAt? sides).map Tree.label
  paths : ∀ row, shallow.root.path row = (deep.root.path row).take d
  /-- Rows that end at one leaf of the deeper tree end at one leaf of the other. -/
  leaves : ∀ row row', (deep.array.route row 0).getLast? = (deep.array.route row' 0).getLast? →
    (shallow.array.route row 0).getLast? = (shallow.array.route row' 0).getLast?

/-- With a greater depth, and otherwise within the same limits, a tree refines the one that grows on
the same rows. In exact arithmetic its error on these rows is no larger. -/
theorem DecisionTree.deeper_refines (limits : TreeLimits) (d : Nat) (deeper : Option Nat)
    (hdeeper : ∀ e ∈ deeper, d ≤ e) :
    (∀ (α : Type) [Scalar α] (x : List (List α)) (y : List α) (sample : List Nat) (width : Nat),
      x.length = y.length → (∀ row ∈ x, row.length = width) → sample ≠ [] →
      (∀ i ∈ sample, i < y.length) →
      ∃ shallow deep : GrownTree α, Fits limits (some d) x y sample shallow ∧
        Fits limits deeper x y sample deep ∧ deep.Refines shallow d) ∧
    ∀ (K : Type) [ExactNumber K] (x : List (List (Exact K))) (ys : List K) (sample : List Nat)
      (width : Nat), x.length = ys.length → (∀ row ∈ x, row.length = width) → sample ≠ [] →
      (∀ i ∈ sample, i < ys.length) →
      ∃ shallow deep : GrownTree (Exact K),
        Fits limits (some d) x (ys.map Exact.number) sample shallow ∧
        Fits limits deeper x (ys.map Exact.number) sample deep ∧
        deep.error x (ys.map Exact.number) sample ≤
          shallow.error x (ys.map Exact.number) sample := by
  constructor
  · intro α _ x y sample width hrows hwidth hsample hrange
    refine ⟨_, _, fits_grow limits _ hrows hwidth hsample hrange,
      fits_grow limits _ hrows hwidth hsample hrange, ?_, ?_, ?_⟩
    · exact fun sides hsides => Tree.label_grow hdeeper _ hsides
    · exact fun row => Tree.path_grow hdeeper _ row
    · intro row row' hends
      rw [GrownTree.array_route, GrownTree.array_route, ← Tree.path_eq_iff] at hends ⊢
      dsimp only at hends ⊢
      rw [Tree.path_grow hdeeper, Tree.path_grow hdeeper, hends]
  · intro K _ x ys sample width hrows hwidth hsample hrange
    have hrows' : x.length = (ys.map Exact.number).length := by rwa [List.length_map]
    have hrange' : ∀ i ∈ sample, i < (ys.map Exact.number).length := by rwa [List.length_map]
    refine ⟨_, _, fits_grow limits _ hrows' hwidth hsample hrange',
      fits_grow limits _ hrows' hwidth hsample hrange', ?_⟩
    rw [GrownTree.error_eq, GrownTree.error_eq, GrownTree.examples_numbers]
    exact Tree.error_deeper_le hdeeper _

open Exact (number nan) in
/-- Three rows, one of them listed twice and one without its feature. -/
theorem DecisionTree.unlimited_refines :
    (∃ shallow deep : GrownTree (Exact ℚ),
      Fits ⟨none, 2, 1⟩ (some 1) [[number 1], [number 3], [nan]] [number 0, number 2, number 6]
        [0, 1, 2, 1] shallow ∧
      Fits ⟨none, 2, 1⟩ none [[number 1], [number 3], [nan]] [number 0, number 2, number 6]
        [0, 1, 2, 1] deep ∧ deep.Refines shallow 1) ∧
    ∃ shallow deep : GrownTree (Exact ℚ),
      Fits ⟨none, 2, 1⟩ (some 1) [[number 1], [number 3], [nan]] [number 0, number 2, number 6]
        [0, 1, 2, 1] shallow ∧
      Fits ⟨none, 2, 1⟩ none [[number 1], [number 3], [nan]] [number 0, number 2, number 6]
        [0, 1, 2, 1] deep ∧
      deep.error [[number 1], [number 3], [nan]] [number 0, number 2, number 6] [0, 1, 2, 1] ≤
        shallow.error [[number 1], [number 3], [nan]] [number 0, number 2, number 6]
          [0, 1, 2, 1] := by
  obtain ⟨hrefines, herror⟩ := deeper_refines ⟨none, 2, 1⟩ 1 none nofun
  constructor
  · exact hrefines _ _ _ _ 1 rfl (by decide) (by decide) (by decide)
  · exact herror ℚ [[number 1], [number 3], [nan]] [0, 2, 6] _ 1 rfl (by decide) (by decide)
      (by decide)

end Infill
