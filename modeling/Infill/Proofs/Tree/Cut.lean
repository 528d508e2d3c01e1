import Mathlib.Data.List.Basic
import Infill.Proofs.Scalar.Sorting
import Infill.Tree.Grow

/-! A cut parts the rows of a node where it was counted to part them. It is counted at a position of
the sorted values of a feature; the rows go by comparison with its threshold, which lies at or above
the lower of the two values at that position and below the upper one. -/

namespace Infill.Tree

variable {α : Type} [Scalar α]

open Scalar (observed isNaN SortsNumbers Bisects)
open Scalar.OrdersNumbers (le_refl le_trans lt_iff isNaN_of_le)

theorem isNaN_of_observed {cell : Option α} {v : α} (h : observed cell = some v) :
    isNaN v = false := by
  unfold observed at h
  split at h
  · split_ifs at h with hnan
    cases h
    simpa using hnan
  · cases h

/-- A cut between two different neighbours among the values of a feature, `count` values before it. -/
structure Cut.Between (c : Cut α) (values : List (α × α)) (count : Nat) : Prop where
  apart : (c.low == c.high) = false
  neighbours : ∃ before y z after,
    values = before ++ (c.low, y) :: (c.high, z) :: after ∧ count = before.length + 1

theorem Cut.Between.cons {c : Cut α} {values : List (α × α)} {count : Nat}
    (h : c.Between values count) (first : α × α) : c.Between (first :: values) (count + 1) where
  apart := h.apart
  neighbours := by
    obtain ⟨before, y, z, after, rfl, rfl⟩ := h.neighbours
    exact ⟨first :: before, y, z, after, rfl, rfl⟩

theorem mem_cutsFrom {node : NodeTotals α} {feature : Nat} {values : List (α × α)} {c : Cut α}
    {seen : Nat} {sum : α} (h : c ∈ cutsFrom node feature seen sum values) :
    c.feature = feature ∧ ∃ count, c.Between values count ∧ node.admits (seen + count) = true := by
  induction values generalizing seen sum with
  | nil => simp [cutsFrom] at h
  | cons first rest ih =>
    obtain ⟨low, y⟩ := first
    rcases rest with - | ⟨⟨high, z⟩, rest⟩
    · simp [cutsFrom] at h
    · have hlater : c ∈ cutsFrom node feature (seen + 1) (sum + y) ((high, z) :: rest) →
          c.feature = feature ∧ ∃ count, c.Between ((low, y) :: (high, z) :: rest) count ∧
            node.admits (seen + count) = true := by
        intro hmem
        obtain ⟨hfeature, count, hbetween, hadmits⟩ := ih hmem
        refine ⟨hfeature, count + 1, hbetween.cons _, ?_⟩
        rwa [Nat.add_comm count, ← Nat.add_assoc]
      rw [cutsFrom] at h
      split_ifs at h with hcut
      · obtain ⟨hapart, hadmits⟩ := Bool.and_eq_true_iff.1 hcut
        rcases List.mem_cons.1 h with rfl | hmem
        · exact ⟨rfl, 1, ⟨by simpa using hapart, [], y, z, rest, rfl, rfl⟩, hadmits⟩
        · exact hlater hmem
      · exact hlater h

theorem mem_of_foldl_betterCut {cs : List (Cut α)} {best : Option (Cut α)} {c : Cut α}
    (h : cs.foldl betterCut best = some c) : c ∈ cs ∨ best = some c := by
  induction cs generalizing best with
  | nil => exact .inr h
  | cons first cs ih =>
    rcases ih h with hmem | hbest
    · exact .inl (List.mem_cons_of_mem _ hmem)
    · unfold betterCut at hbest
      split_ifs at hbest
      · exact .inl (Option.some.inj hbest ▸ List.mem_cons_self)
      · exact .inr hbest

theorem mem_cuts_of_bestCut {featureCount minLeaf : Nat} {rows : List (Example α)} {c : Cut α}
    (h : bestCut featureCount minLeaf rows = some c) : c ∈ cuts featureCount minLeaf rows := by
  apply (mem_of_foldl_betterCut h).resolve_right
  simp

theorem isNaN_of_mem_sortedFeature {feature : Nat} {rows : List (Example α)} {v : α × α}
    (h : v ∈ sortedFeature feature rows) : isNaN v.1 = false := by
  rw [sortedFeature, List.mem_mergeSort, List.mem_filterMap] at h
  obtain ⟨⟨row, y⟩, -, hv⟩ := h
  obtain ⟨x, hx, rfl⟩ := Option.map_eq_some_iff.1 hv
  exact isNaN_of_observed hx

section Known

variable [SortsNumbers α]

theorem sortedFeature_ascending (feature : Nat) (rows : List (Example α)) :
    (sortedFeature feature rows).Pairwise fun a b => a.1 ≤ b.1 := by
  have hsorted : (sortedFeature feature rows).Pairwise fun a b => Scalar.sortLe a.1 b.1 = true := by
    apply List.pairwise_mergeSort
    · exact fun _ _ _ => SortsNumbers.sortLe_trans
    · exact fun _ _ => SortsNumbers.sortLe_total _ _
  refine hsorted.imp_of_mem fun ha hb hle => ?_
  exact SortsNumbers.le_of_sortLe (isNaN_of_mem_sortedFeature ha) (isNaN_of_mem_sortedFeature hb) hle

/-- As many rows go left as there are values up to the threshold: without the feature none does. -/
theorem countP_goesLeft (feature : Nat) (threshold : α) (rows : List (Example α)) :
    rows.countP (fun row => goesLeft feature threshold row.1) =
      (sortedFeature feature rows).countP fun v => decide (v.1 ≤ threshold) := by
  rw [sortedFeature, (List.mergeSort_perm _ _).countP_eq, List.countP_filterMap]
  refine List.countP_congr fun ⟨row, y⟩ _ => ?_
  have hnan : ∀ x : α, isNaN x = true → ¬ x ≤ threshold := by
    intro x hx hle
    rw [(isNaN_of_le hle).1] at hx
    cases hx
  rcases hcell : row[feature]? with - | x
  · simp [goesLeft, hcell, observed, hnan _ SortsNumbers.isNaN_nan]
  · by_cases hx : isNaN x = true
    · simp [goesLeft, hcell, observed, hx, hnan _ hx]
    · simp [goesLeft, hcell, observed, hx]

variable [Bisects α]

/-- The threshold tells the two neighbours apart. -/
theorem Cut.threshold_between {c : Cut α} (h : c.low < c.high) :
    c.low ≤ c.threshold ∧ ¬ c.high ≤ c.threshold := by
  obtain ⟨hle, hnot⟩ := lt_iff.1 h
  unfold threshold
  dsimp only
  split_ifs with hmiddle
  · obtain ⟨hbelow, hapart⟩ := lt_iff.1 hmiddle
    refine ⟨?_, hapart⟩
    rcases Bisects.le_middle h with hnan | hup
    · rw [(isNaN_of_le hbelow).1] at hnan
      cases hnan
    · exact hup
  · exact ⟨le_refl (isNaN_of_le hle).1, hnot⟩

/-- Of ascending values those before a cut are at most its threshold, and no others. -/
theorem Cut.Between.countP_le {c : Cut α} {values : List (α × α)} {count : Nat}
    (h : c.Between values count) (hsorted : values.Pairwise fun a b => a.1 ≤ b.1) :
    values.countP (fun v => decide (v.1 ≤ c.threshold)) = count := by
  obtain ⟨before, y, z, after, rfl, rfl⟩ := h.neighbours
  obtain ⟨-, htail, hbefore⟩ := List.pairwise_append.1 hsorted
  obtain ⟨hlow, htail⟩ := List.pairwise_cons.1 htail
  obtain ⟨hhigh, -⟩ := List.pairwise_cons.1 htail
  have hle : c.low ≤ c.high := hlow _ List.mem_cons_self
  have hlt : c.low < c.high := by
    refine lt_iff.2 ⟨hle, fun hge => ?_⟩
    have hequal := SortsNumbers.beq_of_le hle hge
    rw [h.apart] at hequal
    cases hequal
  obtain ⟨hreach, hshort⟩ := threshold_between hlt
  have hleft : before.countP (fun v => decide (v.1 ≤ c.threshold)) = before.length := by
    refine List.countP_eq_length.2 fun v hv => decide_eq_true ?_
    exact le_trans (hbefore v hv _ List.mem_cons_self) hreach
  have hright : after.countP (fun v => decide (v.1 ≤ c.threshold)) = 0 := by
    refine List.countP_eq_zero.2 fun v hv hv' => hshort ?_
    exact le_trans (hhigh v hv) (of_decide_eq_true hv')
  rw [List.countP_append, hleft, List.countP_cons, List.countP_cons, hright]
  simp [hreach, hshort]

omit [SortsNumbers α] [Bisects α] in
theorem Cut.length_part (cut : Cut α) (rows : List (Example α)) :
    rows.length = (cut.part rows).1.length + (cut.part rows).2.length := by
  rw [Cut.part, List.partition_eq_filter_filter]
  exact List.length_eq_length_filter_add _

/-- What a cut that is made promises: a feature of the rows, and enough rows on both sides. -/
theorem bestCut_parts {featureCount minLeaf : Nat} {rows : List (Example α)} {c : Cut α}
    (h : bestCut featureCount minLeaf rows = some c) : c.feature < featureCount ∧
      minLeaf ≤ (c.part rows).1.length ∧ minLeaf ≤ (c.part rows).2.length := by
  obtain ⟨feature, hfeature, hmem⟩ := List.mem_flatMap.1 (mem_cuts_of_bestCut h)
  obtain ⟨rfl, count, hbetween, hadmits⟩ := mem_cutsFrom hmem
  have hleft : (c.part rows).1.length = count := by
    rw [Cut.part, List.partition_eq_filter_filter, ← List.countP_eq_length_filter,
      countP_goesLeft, hbetween.countP_le (sortedFeature_ascending _ _)]
  have hall := c.length_part rows
  rw [Nat.zero_add, NodeTotals.admits, Bool.and_eq_true, decide_eq_true_eq,
    decide_eq_true_eq] at hadmits
  obtain ⟨hadmitted, hrest⟩ := hadmits
  refine ⟨List.mem_range.1 hfeature, hleft ▸ hadmitted, ?_⟩
  change minLeaf ≤ rows.length - count at hrest
  omega

end Known

end Infill.Tree
