import Infill.Tree.Grow

/-! A tree as an array of nodes. A node is put at the end of the array before its sides are, as a leaf;
once both of them are there, it becomes the split that points at them. What is grown in place like
this is the list of the nodes of the grown tree, every one before the nodes below it, so that a row
that follows the splits gets to a leaf, and to the one that the tree predicts from. -/

namespace Infill

variable {α : Type}

/-- A node in an array; the sides of a split are places of the array. -/
inductive Node (α : Type)
  | leaf (value : α)
  | split (feature : Nat) (threshold : α) (left right : Nat)

/-- An array in which every split points at two places further on. -/
structure NodeArray (α : Type) where
  nodes : List (Node α)
  nonempty : 0 < nodes.length
  linked : ∀ place feature threshold left right,
    nodes[place]? = some (.split feature threshold left right) →
      (place < left ∧ left < nodes.length) ∧ place < right ∧ right < nodes.length

namespace Tree

/-- The nodes of a tree when its root is at a place, the left side behind the root and the right side
behind the left one. -/
def listFrom (place : Nat) : Tree α → List (Node α)
  | leaf value => [.leaf value]
  | split feature threshold left right =>
    .split feature threshold (place + 1) (place + 1 + left.nodeCount) ::
      (left.listFrom (place + 1) ++ right.listFrom (place + 1 + left.nodeCount))

theorem length_listFrom (t : Tree α) (place : Nat) : (t.listFrom place).length = t.nodeCount := by
  induction t generalizing place with
  | leaf value => rfl
  | split feature threshold left right ihl ihr =>
    simp only [listFrom, nodeCount, List.length_cons, List.length_append, ihl, ihr]
    omega

theorem nodeCount_pos (t : Tree α) : 0 < t.nodeCount := by
  cases t with
  | leaf value => exact Nat.one_pos
  | split feature threshold left right =>
    rw [nodeCount]
    omega

/-- A node of a split tree is its root, or a node of one of its sides. -/
theorem getElem?_listFrom_split {place feature : Nat} {threshold : α} {left right : Tree α}
    {p : Nat} {node : Node α}
    (h : ((split feature threshold left right).listFrom place)[p]? = some node) :
    (p = 0 ∧ node = .split feature threshold (place + 1) (place + 1 + left.nodeCount)) ∨
    (∃ q, p = q + 1 ∧ q < left.nodeCount ∧ (left.listFrom (place + 1))[q]? = some node) ∨
    ∃ q, p = q + 1 + left.nodeCount ∧
      (right.listFrom (place + 1 + left.nodeCount))[q]? = some node := by
  rcases p with - | p
  · exact .inl ⟨rfl, (Option.some.inj h).symm⟩
  · rw [listFrom, List.getElem?_cons_succ, List.getElem?_append, length_listFrom] at h
    split at h
    · exact .inr (.inl ⟨p, rfl, ‹_›, h⟩)
    · exact .inr (.inr ⟨p - left.nodeCount, by omega, h⟩)

theorem getElem?_listFrom_left {place feature q : Nat} {threshold : α} {left right : Tree α}
    {node : Node α} (h : (left.listFrom (place + 1))[q]? = some node) :
    ((split feature threshold left right).listFrom place)[q + 1]? = some node := by
  rw [listFrom, List.getElem?_cons_succ,
    List.getElem?_append_left (List.getElem?_eq_some_iff.1 h).1, h]

theorem getElem?_listFrom_right {place feature q : Nat} {threshold : α} {left right : Tree α}
    {node : Node α} (h : (right.listFrom (place + 1 + left.nodeCount))[q]? = some node) :
    ((split feature threshold left right).listFrom place)[q + 1 + left.nodeCount]? = some node := by
  have hindex : q + 1 + left.nodeCount = (left.listFrom (place + 1)).length + q + 1 := by
    rw [length_listFrom]
    omega
  rw [listFrom, hindex, List.getElem?_cons_succ, List.getElem?_append_right (Nat.le_add_right _ _),
    Nat.add_sub_cancel_left, h]

/-- A split points at places behind its own. -/
theorem listFrom_linked {t : Tree α} {place p feature left right : Nat} {threshold : α}
    (h : (t.listFrom place)[p]? = some (.split feature threshold left right)) :
    (place + p < left ∧ left < place + t.nodeCount) ∧
      place + p < right ∧ right < place + t.nodeCount := by
  induction t generalizing place p with
  | leaf value =>
    rcases p with - | p <;> simp [listFrom] at h
  | split feature threshold leftTree rightTree ihl ihr =>
    have hleft := leftTree.nodeCount_pos
    have hright := rightTree.nodeCount_pos
    rw [nodeCount]
    rcases getElem?_listFrom_split h with ⟨rfl, hnode⟩ | ⟨q, rfl, hq, hnode⟩ | ⟨q, rfl, hnode⟩
    · injection hnode with _ _ hl hr
      omega
    · have hsides := ihl hnode
      omega
    · have hsides := ihr hnode
      omega

end Tree

def GrownTree.array (g : GrownTree α) : NodeArray α where
  nodes := g.root.listFrom 0
  nonempty := (g.root.length_listFrom 0).symm ▸ g.root.nodeCount_pos
  linked _ _ _ _ _ h := by
    simpa [g.root.length_listFrom 0] using Tree.listFrom_linked h

variable [Scalar α]

/-- The places that a row passes on from a place, the last of them a leaf. -/
def NodeArray.route (t : NodeArray α) (row : List α) (place : Nat) : List Nat :=
  match _h : t.nodes[place]? with
  | some (.split feature threshold left right) =>
    place :: t.route row (if Tree.goesLeft feature threshold row then left else right)
  | _ => [place]
termination_by t.nodes.length - place
decreasing_by
  obtain ⟨hleft, hright⟩ := t.linked _ _ _ _ _ _h
  split <;> omega

namespace NodeArray

variable {t : NodeArray α} {row : List α} {place : Nat}

theorem route_leaf {value : α} (h : t.nodes[place]? = some (.leaf value)) :
    t.route row place = [place] := by
  rw [route]
  split
  · rename_i hsplit
    rw [h] at hsplit
    cases hsplit
  · rfl

theorem route_split {feature left right : Nat} {threshold : α}
    (h : t.nodes[place]? = some (.split feature threshold left right)) :
    t.route row place =
      place :: t.route row (if Tree.goesLeft feature threshold row then left else right) := by
  rw [route]
  split
  · rename_i hsplit
    cases h.symm.trans hsplit
    rfl
  · rename_i hother
    exact absurd h (hother _ _ _ _)

end NodeArray

namespace Tree

def routeFrom (row : List α) (place : Nat) : Tree α → List Nat
  | leaf _ => [place]
  | split feature threshold left right =>
    place :: if goesLeft feature threshold row then left.routeFrom row (place + 1)
      else right.routeFrom row (place + 1 + left.nodeCount)

/-- Wherever a tree stands in an array, rows take the same route through it. -/
theorem route_eq_routeFrom {t : Tree α} {array : NodeArray α} {before after : List (Node α)}
    {place : Nat} (hplace : before.length = place)
    (h : array.nodes = before ++ (t.listFrom place ++ after)) (row : List α) :
    array.route row place = t.routeFrom row place := by
  induction t generalizing before after place with
  | leaf value =>
    have hnode : array.nodes[place]? = some (.leaf value) := by simp [h, ← hplace, listFrom]
    rw [NodeArray.route_leaf hnode, routeFrom]
  | split feature threshold left right ihl ihr =>
    let node : Node α := .split feature threshold (place + 1) (place + 1 + left.nodeCount)
    have hnode : array.nodes[place]? = some node := by simp [h, ← hplace, listFrom, node]
    have hleft : array.nodes = (before ++ [node]) ++
        (left.listFrom (place + 1) ++ (right.listFrom (place + 1 + left.nodeCount) ++ after)) := by
      simp [h, listFrom, node]
    have hright : array.nodes = (before ++ node :: left.listFrom (place + 1)) ++
        (right.listFrom (place + 1 + left.nodeCount) ++ after) := by
      simp [h, listFrom, node]
    rw [NodeArray.route_split hnode, routeFrom]
    congr 1
    split
    · exact ihl (by simp [hplace]) hleft
    · refine ihr ?_ hright
      rw [List.length_append, List.length_cons, length_listFrom]
      omega

theorem mem_routeFrom {t : Tree α} {row : List α} {place p : Nat} (h : p ∈ t.routeFrom row place) :
    place ≤ p ∧ p < place + t.nodeCount := by
  induction t generalizing place with
  | leaf value =>
    obtain rfl := List.mem_singleton.1 h
    exact ⟨Nat.le_refl _, Nat.lt_succ_self _⟩
  | split feature threshold left right ihl ihr =>
    have hleft := left.nodeCount_pos
    rw [nodeCount]
    rw [routeFrom, List.mem_cons] at h
    rcases h with rfl | h
    · omega
    · split at h
      · have hsides := ihl h
        omega
      · have hsides := ihr h
        omega

theorem head_routeFrom (t : Tree α) (row : List α) (place : Nat) :
    place ∈ t.routeFrom row place := by
  cases t <;> simp [routeFrom]

section Sides

variable {feature : Nat} {threshold : α} {left right : Tree α} {row : List α} {place : Nat}

/-- The rows that pass a node on the left of a split go left, and pass it there. -/
theorem mem_routeFrom_left {q : Nat} (hq : q < left.nodeCount) :
    place + (q + 1) ∈ (split feature threshold left right).routeFrom row place ↔
      goesLeft feature threshold row = true ∧ place + 1 + q ∈ left.routeFrom row (place + 1) := by
  have hplace : place + (q + 1) = place + 1 + q := by omega
  rw [routeFrom, List.mem_cons, hplace]
  split
  · simp [show place + 1 + q ≠ place by omega, *]
  · have hright : place + 1 + q ∉ right.routeFrom row (place + 1 + left.nodeCount) := by
      intro hmem
      have hbound := mem_routeFrom hmem
      omega
    simp [show place + 1 + q ≠ place by omega, *]

/-- The rows that pass a node on the right of a split do not go left, and pass it there. -/
theorem mem_routeFrom_right {q : Nat} :
    place + (q + 1 + left.nodeCount) ∈ (split feature threshold left right).routeFrom row place ↔
      goesLeft feature threshold row = false ∧
        place + 1 + left.nodeCount + q ∈ right.routeFrom row (place + 1 + left.nodeCount) := by
  have hplace : place + (q + 1 + left.nodeCount) = place + 1 + left.nodeCount + q := by omega
  rw [routeFrom, List.mem_cons, hplace]
  split
  · have hleft : place + 1 + left.nodeCount + q ∉ left.routeFrom row (place + 1) := by
      intro hmem
      have hbound := mem_routeFrom hmem
      omega
    simp [show place + 1 + left.nodeCount + q ≠ place by omega, *]
  · simp [show place + 1 + left.nodeCount + q ≠ place by omega, *]

theorem getLast?_routeFrom_left (h : goesLeft feature threshold row = true) {last : Nat}
    (hlast : (left.routeFrom row (place + 1)).getLast? = some last) :
    ((split feature threshold left right).routeFrom row place).getLast? = some last := by
  rw [routeFrom, if_pos h, List.getLast?_cons, hlast, Option.getD_some]

theorem getLast?_routeFrom_right (h : goesLeft feature threshold row = false) {last : Nat}
    (hlast : (right.routeFrom row (place + 1 + left.nodeCount)).getLast? = some last) :
    ((split feature threshold left right).routeFrom row place).getLast? = some last := by
  rw [routeFrom, if_neg (by simp [h]), List.getLast?_cons, hlast, Option.getD_some]

end Sides

/-- The last place of a route is that of the leaf from which the tree predicts. -/
theorem routeFrom_ends (t : Tree α) (row : List α) (place : Nat) :
    ∃ p, (t.routeFrom row place).getLast? = some (place + p) ∧
      (t.listFrom place)[p]? = some (.leaf (t.predict row)) := by
  induction t generalizing place with
  | leaf value => exact ⟨0, rfl, rfl⟩
  | split feature threshold left right ihl ihr =>
    cases hside : goesLeft feature threshold row with
    | true =>
      obtain ⟨q, hlast, hnode⟩ := ihl (place + 1)
      have hpredict : (split feature threshold left right).predict row = left.predict row :=
        if_pos hside
      refine ⟨q + 1, ?_, hpredict ▸ getElem?_listFrom_left hnode⟩
      rw [getLast?_routeFrom_left hside hlast]
      congr 1
      omega
    | false =>
      obtain ⟨q, hlast, hnode⟩ := ihr (place + 1 + left.nodeCount)
      have hpredict : (split feature threshold left right).predict row = right.predict row :=
        if_neg (by simp [hside])
      refine ⟨q + 1 + left.nodeCount, ?_, hpredict ▸ getElem?_listFrom_right hnode⟩
      rw [getLast?_routeFrom_right hside hlast]
      congr 1
      omega

theorem mem_routeFrom_leaf {t : Tree α} {row : List α} {place p : Nat} {value : α}
    (h : (t.listFrom place)[p]? = some (.leaf value)) :
    place + p ∈ t.routeFrom row place ↔ (t.routeFrom row place).getLast? = some (place + p) := by
  refine ⟨fun hmem => ?_, List.mem_of_getLast?⟩
  induction t generalizing place p with
  | leaf value =>
    rw [List.mem_singleton.1 hmem]
    rfl
  | split feature threshold left right ihl ihr =>
    rcases getElem?_listFrom_split h with ⟨-, hnode⟩ | ⟨q, rfl, hq, hnode⟩ | ⟨q, rfl, hnode⟩
    · cases hnode
    · obtain ⟨hside, hmem⟩ := (mem_routeFrom_left hq).1 hmem
      rw [getLast?_routeFrom_left hside (ihl hnode hmem)]
      congr 1
      omega
    · obtain ⟨hside, hmem⟩ := mem_routeFrom_right.1 hmem
      rw [getLast?_routeFrom_right hside (ihr hnode hmem)]
      congr 1
      omega

/-- Grows a tree at the end of an array, and tells the place of its root. -/
def plant (limits : TreeLimits) (featureCount : Nat) (depthLeft : Option Nat)
    (rows : List (Example α)) : StateM (List (Node α)) Nat := do
  let place := (← get).length
  modify (· ++ [.leaf (Scalar.mean (rows.map (·.2)))])
  match nextCut limits featureCount depthLeft rows with
  | none => return place
  | some cut =>
    let (left, right) := cut.part rows
    if left.length < rows.length ∧ right.length < rows.length then
      let depthLeft := depthLeft.map (· - 1)
      let leftPlace ← plant limits featureCount depthLeft left
      let rightPlace ← plant limits featureCount depthLeft right
      modify (·.set place (.split cut.feature cut.threshold leftPlace rightPlace))
    return place
termination_by rows.length
decreasing_by all_goals omega

/-- One node at a time: what it leaves behind in the array, before and after its sides. -/
theorem plant_run (limits : TreeLimits) (featureCount : Nat) (depthLeft : Option Nat)
    (rows : List (Example α)) (nodes : List (Node α)) :
    plant limits featureCount depthLeft rows nodes =
      match nextCut limits featureCount depthLeft rows with
      | none => (nodes.length, nodes ++ [.leaf (Scalar.mean (rows.map (·.2)))])
      | some cut =>
        let (left, right) := cut.part rows
        let start := nodes ++ [.leaf (Scalar.mean (rows.map (·.2)))]
        if left.length < rows.length ∧ right.length < rows.length then
          let depthLeft := depthLeft.map (· - 1)
          let (leftPlace, nodesLeft) := plant limits featureCount depthLeft left start
          let (rightPlace, nodesRight) := plant limits featureCount depthLeft right nodesLeft
          (nodes.length,
            nodesRight.set nodes.length (.split cut.feature cut.threshold leftPlace rightPlace))
        else (nodes.length, start) := by
  rw [plant]
  cases nextCut limits featureCount depthLeft rows with
  | none => rfl
  | some cut =>
    dsimp only
    split <;> rfl

/-- The array then ends with the nodes of the grown tree, and is the same before. -/
theorem plant_eq (limits : TreeLimits) (featureCount : Nat) (depthLeft : Option Nat)
    (rows : List (Example α)) (nodes : List (Node α)) :
    plant limits featureCount depthLeft rows nodes = (nodes.length,
      nodes ++ (grow limits featureCount depthLeft rows).listFrom nodes.length) := by
  fun_induction grow limits featureCount depthLeft rows generalizing nodes with
  | case1 depthLeft rows hcut =>
    simp only [plant_run, hcut, leafOf, listFrom]
  | case2 depthLeft rows cut hcut left right hpart hsmaller depthLeft' ihl ihr =>
    rw [plant_run]
    simp only [hcut, hpart, if_pos hsmaller]
    rw [ihl]
    dsimp only
    rw [ihr, listFrom]
    -- The new root is the only node that changes; the lengths say where the sides begin.
    simp [length_listFrom, Nat.add_assoc, Nat.add_comm 1]
  | case3 depthLeft rows cut hcut left right hpart hsmaller =>
    rw [plant_run]
    simp only [hcut, hpart, if_neg hsmaller, leafOf, listFrom]

end Tree

end Infill
