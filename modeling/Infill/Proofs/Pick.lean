import Mathlib.Data.List.Perm.Basic
import Mathlib.Data.List.Range

/-! A list read at given positions, one entry for each of them that lies in the list. Read at all of its
positions in some order, a list is rearranged: operations on entries do not see the order, and of two
lists that are joined each can be rearranged on its own. -/

namespace Infill

variable {β γ δ : Type}

def pick (positions : List Nat) (xs : List β) : List β := positions.filterMap (xs[·]?)

@[simp] theorem pick_nil (positions : List Nat) : pick positions ([] : List β) = [] := by
  simp [pick]

theorem pick_range' (first count : Nat) (xs : List β) :
    pick (List.range' first count) xs = (xs.drop first).take count := by
  induction count generalizing first with
  | zero => simp [pick]
  | succ count ih =>
    rw [pick, List.range'_succ, List.filterMap_cons, ← pick, ih]
    by_cases h : first < xs.length
    · rw [List.getElem?_eq_getElem h, List.drop_eq_getElem_cons h]
      rfl
    · have hend : xs.length ≤ first := Nat.le_of_not_lt h
      rw [List.getElem?_eq_none hend, List.drop_of_length_le hend,
        List.drop_of_length_le (Nat.le_succ_of_le hend), List.take_nil, List.take_nil]

theorem pick_range (xs : List β) : pick (List.range xs.length) xs = xs := by
  rw [List.range_eq_range', pick_range', List.drop_zero, List.take_length]

theorem pick_append (ps qs : List Nat) (xs : List β) :
    pick (ps ++ qs) xs = pick ps xs ++ pick qs xs :=
  List.filterMap_append

theorem pick_map (ps : List Nat) (f : β → γ) (xs : List β) :
    pick ps (xs.map f) = (pick ps xs).map f := by
  simp only [pick, List.getElem?_map, List.map_filterMap]

theorem mem_of_mem_pick {ps : List Nat} {xs : List β} {x : β} (h : x ∈ pick ps xs) : x ∈ xs := by
  obtain ⟨i, -, hi⟩ := List.mem_filterMap.1 h
  exact List.mem_of_getElem? hi

def Within (n : Nat) (ps : List Nat) : Prop := ∀ i ∈ ps, i < n

section Positions

variable {ps qs : List Nat} {xs ys : List β}

theorem length_pick (h : Within xs.length ps) : (pick ps xs).length = ps.length := by
  refine List.filterMap_length_eq_length.2 fun i hi => ?_
  rw [List.getElem?_eq_getElem (h i hi)]
  rfl

theorem getElem?_pick (h : Within xs.length ps) (j : Nat) :
    (pick ps xs)[j]? = ps[j]?.bind (xs[·]?) := by
  induction ps generalizing j with
  | nil => rfl
  | cons p ps ih =>
    have hp := List.getElem?_eq_getElem (h p List.mem_cons_self)
    rw [pick, List.filterMap_cons, hp]
    cases j with
    | zero => simp [← hp]
    | succ j => simpa [pick] using ih (fun i hi => h i (List.mem_cons_of_mem p hi)) j

theorem pick_take (h : Within xs.length ps) (count : Nat) :
    pick (ps.take count) xs = (pick ps xs).take count := by
  induction ps generalizing count with
  | nil => simp [pick]
  | cons p ps ih =>
    cases count with
    | zero => rfl
    | succ count =>
      have hp := List.getElem?_eq_getElem (h p List.mem_cons_self)
      have hrest := ih (fun i hi => h i (List.mem_cons_of_mem p hi)) count
      unfold pick at hrest ⊢
      simp only [List.take_succ_cons, List.filterMap_cons, hp, hrest]

theorem pick_left (h : Within xs.length ps) : pick ps (xs ++ ys) = pick ps xs :=
  List.filterMap_congr fun i hi => List.getElem?_append_left (h i hi)

theorem pick_right (ps : List Nat) (xs ys : List β) :
    pick (ps.map (xs.length + ·)) (xs ++ ys) = pick ps ys := by
  rw [pick, List.filterMap_map]
  refine List.filterMap_congr fun i _ => ?_
  rw [Function.comp_apply, List.getElem?_append_right (Nat.le_add_right _ i),
    Nat.add_sub_cancel_left]

theorem pick_zipWith (f : β → γ → δ) {ys : List γ} (hlength : xs.length = ys.length)
    (h : Within xs.length ps) :
    pick ps (List.zipWith f xs ys) = List.zipWith f (pick ps xs) (pick ps ys) := by
  induction ps with
  | nil => rfl
  | cons p ps ih =>
    have hp := h p List.mem_cons_self
    have hrest := ih fun i hi => h i (List.mem_cons_of_mem p hi)
    have hp' : p < ys.length := hlength ▸ hp
    have hx : xs[p]? = some xs[p] := List.getElem?_eq_getElem hp
    have hy : ys[p]? = some ys[p] := List.getElem?_eq_getElem hp'
    have hz : (List.zipWith f xs ys)[p]? = some (f xs[p] ys[p]) :=
      List.getElem?_zipWith_eq_some.2 ⟨_, _, hx, hy, rfl⟩
    unfold pick at hrest ⊢
    simp only [List.filterMap_cons, hx, hy, hz, List.zipWith_cons_cons, hrest]

end Positions

/-- All positions of a list of `n` entries, each once. -/
def Arranges (n : Nat) (order : List Nat) : Prop := order.Perm (List.range n)

namespace Arranges

variable {n m : Nat} {σ τ : List Nat} {xs ys : List β}

theorem length (h : Arranges n σ) : σ.length = n := h.length_eq.trans List.length_range

theorem within (h : Arranges n σ) : Within n σ := fun _ hi => List.mem_range.1 (h.mem_iff.1 hi)

theorem append (hσ : Arranges n σ) (hτ : Arranges m τ) :
    Arranges (n + m) (σ ++ τ.map (n + ·)) := by
  rw [Arranges, List.range_add]
  exact List.Perm.append hσ (List.Perm.map _ hτ)

theorem pick_perm (h : Arranges xs.length σ) : (pick σ xs).Perm xs := by
  have hall := h.filterMap (xs[·]?)
  rwa [← pick, ← pick, pick_range] at hall

theorem length_pick (h : Arranges xs.length σ) : (pick σ xs).length = xs.length :=
  h.pick_perm.length_eq

theorem pick_ne_nil (h : Arranges xs.length σ) (hxs : xs ≠ []) : pick σ xs ≠ [] :=
  fun hnil => hxs (hnil ▸ h.pick_perm).symm.eq_nil

theorem pick_append (hσ : Arranges xs.length σ) (τ : List Nat) (ys : List β) :
    pick (σ ++ τ.map (xs.length + ·)) (xs ++ ys) = pick σ xs ++ pick τ ys := by
  rw [Infill.pick_append, pick_left hσ.within, pick_right]

end Arranges

end Infill
