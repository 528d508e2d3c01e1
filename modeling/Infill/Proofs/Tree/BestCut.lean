import Infill.Proofs.Scalar.SquaredError
import Infill.Proofs.Tree.Cut

/-! The best cut of a node, in exact arithmetic. The cuts that are tried are the seams between
neighbouring values of a feature that leave enough rows on both sides, by feature and then from the
lowest value up; the gain that is computed from sums over one side is what the squared error of the
node loses. The cut that is made is the first of those that lose the most, and none is made only if
none of them loses more than the least gain. -/

namespace Infill.Tree

open Exact (number nan number?)

variable {K : Type}

def numbered (rows : List (List (Exact K) × K)) : List (Example (Exact K)) :=
  rows.map fun row => (row.1, number row.2)

def featureAt (feature : Nat) (row : List (Exact K)) : Option K := row[feature]?.bind number?

/-- Two values of a feature between which the rows may be parted. -/
@[ext]
structure Seam (K : Type) where
  feature : Nat
  low : K
  high : K

namespace Seam

variable [ExactNumber K] (s : Seam K) (rows : List (List (Exact K) × K))

def left : List (List (Exact K) × K) :=
  rows.filter fun row => (featureAt s.feature row.1).any fun v => decide (v ≤ s.low)

/-- All other rows, those without the feature included. -/
def right : List (List (Exact K) × K) :=
  rows.filter fun row => !(featureAt s.feature row.1).any fun v => decide (v ≤ s.low)

def loss : K :=
  squaredError (rows.map (·.2)) - squaredError ((s.left rows).map (·.2)) -
    squaredError ((s.right rows).map (·.2))

/-- The two values are different neighbours among the rows, and both sides are large enough. -/
structure Admissible (featureCount minLeaf : Nat) : Prop where
  feature_lt : s.feature < featureCount
  low_mem : ∃ row ∈ rows, featureAt s.feature row.1 = some s.low
  high_mem : ∃ row ∈ rows, featureAt s.feature row.1 = some s.high
  low_lt : s.low < s.high
  neighbours : ∀ row ∈ rows, ∀ v, featureAt s.feature row.1 = some v → v ≤ s.low ∨ s.high ≤ v
  left_enough : minLeaf ≤ (s.left rows).length
  right_enough : minLeaf ≤ (s.right rows).length

/-- By feature, and then by the number of rows up to the seam. -/
def Before (t : Seam K) : Prop :=
  s.feature < t.feature ∨ s.feature = t.feature ∧ (s.left rows).length < (t.left rows).length

end Seam

section Values

variable [ExactNumber K]

def known (feature : Nat) (rows : List (List (Exact K) × K)) : List (K × K) :=
  rows.filterMap fun row => (featureAt feature row.1).map fun v => (v, row.2)

def ascending (feature : Nat) (rows : List (List (Exact K) × K)) : List (K × K) :=
  (known feature rows).mergeSort fun a b => decide (a.1 ≤ b.1)

theorem ascending_perm (feature : Nat) (rows : List (List (Exact K) × K)) :
    (ascending feature rows).Perm (known feature rows) := List.mergeSort_perm _ _

theorem ascending_sorted (feature : Nat) (rows : List (List (Exact K) × K)) :
    (ascending feature rows).Pairwise fun a b => a.1 ≤ b.1 := by
  refine (List.pairwise_mergeSort ?_ ?_ _).imp of_decide_eq_true
  · intro a b c hab hbc
    exact decide_eq_true ((of_decide_eq_true hab).trans (of_decide_eq_true hbc))
  · intro a b
    rw [Bool.or_eq_true, decide_eq_true_iff, decide_eq_true_iff]
    exact le_total a.1 b.1

theorem head_le {v u : K × K} {values : List (K × K)}
    (hsorted : (v :: values).Pairwise fun a b => a.1 ≤ b.1) (hu : u ∈ v :: values) : v.1 ≤ u.1 := by
  rcases List.mem_cons.1 hu with rfl | hu
  · exact le_rfl
  · exact (List.pairwise_cons.1 hsorted).1 u hu

theorem sortedFeature_numbered (feature : Nat) (rows : List (List (Exact K) × K)) :
    sortedFeature feature (numbered rows) =
      (ascending feature rows).map fun v => (number v.1, number v.2) := by
  have hknown : (numbered rows).filterMap (fun (row, y) =>
      (Scalar.observed row[feature]?).map fun x => (x, y)) =
        (known feature rows).map fun v => (number v.1, number v.2) := by
    rw [numbered, known, List.filterMap_map, List.map_filterMap]
    refine List.filterMap_congr fun row _ => ?_
    simp [featureAt, Exact.observed_eq, Option.map_map, Function.comp_def]
  rw [sortedFeature, hknown, ascending]
  refine (List.map_mergeSort ?_).symm
  exact fun _ _ _ _ => rfl

end Values

section Gain

variable [ExactNumber K] {s : Seam K} {rows : List (List (Exact K) × K)}

theorem map_snd_left (s : Seam K) (rows : List (List (Exact K) × K)) :
    ((known s.feature rows).filter fun v => decide (v.1 ≤ s.low)).map (·.2) =
      (s.left rows).map (·.2) := by
  unfold known Seam.left
  induction rows with
  | nil => rfl
  | cons row rows ih =>
    rw [List.filterMap_cons, List.filter_cons]
    cases featureAt s.feature row.1 with
    | none => simpa using ih
    | some v =>
      by_cases hv : v ≤ s.low
      · simpa [hv] using ih
      · simpa [hv] using ih

/-- Of ascending values those before a seam are the ones up to its lower value. -/
theorem filter_ascending {values before after : List (K × K)} {low high y z : K}
    (hsorted : values.Pairwise fun a b => a.1 ≤ b.1)
    (hvalues : values = before ++ (low, y) :: (high, z) :: after) (hne : low ≠ high) :
    low < high ∧ values.filter (fun v => decide (v.1 ≤ low)) = before ++ [(low, y)] ∧
      ∀ v ∈ values, v.1 ≤ low ∨ high ≤ v.1 := by
  subst hvalues
  obtain ⟨-, htail, hbefore⟩ := List.pairwise_append.1 hsorted
  obtain ⟨hlow, hhigh⟩ := List.pairwise_cons.1 htail
  have hlt : low < high := lt_of_le_of_ne (hlow _ List.mem_cons_self) hne
  have hup : ∀ v ∈ before, v.1 ≤ low := fun v hv => hbefore v hv _ List.mem_cons_self
  refine ⟨hlt, ?_, fun v hv => ?_⟩
  · have hkeep : before.filter (fun v => decide (v.1 ≤ low)) = before :=
      List.filter_eq_self.2 fun v hv => decide_eq_true (hup v hv)
    have hdrop : after.filter (fun v => decide (v.1 ≤ low)) = [] :=
      List.filter_eq_nil_iff.2 fun v hv hle =>
        hlt.not_ge ((head_le hhigh (List.mem_cons_of_mem _ hv)).trans (of_decide_eq_true hle))
    simp [List.filter_append, hkeep, hdrop, hlt.not_ge]
  · rcases List.mem_append.1 hv with hv | hv
    · exact .inl (hup v hv)
    · rcases List.mem_cons.1 hv with rfl | hv
      · exact .inl le_rfl
      · exact .inr (head_le hhigh hv)

theorem left_perm {before after : List (K × K)} {y z : K}
    (h : ascending s.feature rows = before ++ (s.low, y) :: (s.high, z) :: after)
    (hne : s.low ≠ s.high) : (before.map (·.2) ++ [y]).Perm ((s.left rows).map (·.2)) := by
  obtain ⟨-, hfilter, -⟩ := filter_ascending (ascending_sorted s.feature rows) h hne
  have hperm := ((ascending_perm s.feature rows).filter fun v => decide (v.1 ≤ s.low)).map (·.2)
  rw [hfilter, map_snd_left, List.map_append] at hperm
  exact hperm

theorem length_sides (s : Seam K) (rows : List (List (Exact K) × K)) :
    rows.length = (s.left rows).length + (s.right rows).length :=
  List.length_eq_length_filter_add _

/-- The computed gain of a side that has some of the rows, and not all. -/
theorem gain_numbers {node : NodeTotals (Exact K)} {total : K} (htotal : node.total = number total)
    {count : Nat} (hsome : 0 < count) (hmore : count < node.count) (sum : K) :
    node.gain count (number sum) = number (sum * sum / count +
      (total - sum) * (total - sum) / (node.count - count : Nat) - total * total / node.count) := by
  have hleft : (count : K) ≠ 0 := Nat.cast_ne_zero.2 (by omega)
  have hright : ((node.count - count : Nat) : K) ≠ 0 := Nat.cast_ne_zero.2 (by omega)
  have hall : (node.count : K) ≠ 0 := Nat.cast_ne_zero.2 (by omega)
  unfold NodeTotals.gain
  rw [htotal]
  change number (sum * sum) / number (count : K) +
    number ((total - sum) * (total - sum)) / number ((node.count - count : Nat) : K) -
      number (total * total) / number (node.count : K) = _
  rw [Exact.number_div hleft, Exact.number_div hright, Exact.number_div hall]
  rfl

theorem gain_eq_loss (minLeaf : Nat) {ys : List K} (hys : ys.Perm ((s.left rows).map (·.2)))
    (hleft : 0 < (s.left rows).length) (hright : 0 < (s.right rows).length) :
    (nodeTotals minLeaf (numbered rows)).gain ys.length (number ys.sum) =
      number (s.loss rows) := by
  have hsides : (rows.map (·.2)).Perm ((s.left rows).map (·.2) ++ (s.right rows).map (·.2)) := by
    rw [← List.map_append]
    exact ((List.filter_append_perm _ rows).symm).map _
  have hcount := length_sides s rows
  have hlength : ys.length = (s.left rows).length := by rw [hys.length_eq, List.length_map]
  have hall : (nodeTotals minLeaf (numbered rows)).count = rows.length := List.length_map _
  have htotal : (nodeTotals minLeaf (numbered rows)).total = number (rows.map (·.2)).sum := by
    rw [nodeTotals, numbered, List.map_map, ← Exact.sum_numbers, List.map_map]
    rfl
  have hrest : rows.length - (s.left rows).length = (s.right rows).length := by omega
  have hsum : (rows.map (·.2)).sum - ((s.left rows).map (·.2)).sum =
      ((s.right rows).map (·.2)).sum := by
    rw [hsides.sum_eq, List.sum_append, add_sub_cancel_left]
  rw [gain_numbers htotal (by omega) (by omega), hall, hlength, hys.sum_eq, hrest, hsum, Seam.loss,
    squaredError_perm hsides, squaredError_append_sub, ← hsides.sum_eq, ← hsides.length_eq]
  simp only [List.length_map]

end Gain

section Seams

variable [ExactNumber K] {rows : List (List (Exact K) × K)}

def Seam.cut (s : Seam K) (rows : List (List (Exact K) × K)) : Cut (Exact K) :=
  ⟨s.feature, number s.low, number s.high, number (s.loss rows)⟩

def Seam.Occurs (s : Seam K) (values : List (K × K)) : Prop :=
  ∃ y z, [(s.low, y), (s.high, z)] <:+: values

structure Seam.Parts (s : Seam K) (rows : List (List (Exact K) × K)) (minLeaf : Nat) : Prop where
  apart : s.low ≠ s.high
  left_enough : minLeaf ≤ (s.left rows).length
  right_enough : minLeaf ≤ (s.right rows).length

omit [ExactNumber K] in
/-- A seam stands at the first position or at a later one. -/
theorem Seam.occurs_cons_iff {s : Seam K} {feature : Nat} {v w : K × K} {rest : List (K × K)} :
    s.feature = feature ∧ s.Occurs (v :: w :: rest) ↔
      s = ⟨feature, v.1, w.1⟩ ∨ s.feature = feature ∧ s.Occurs (w :: rest) := by
  obtain ⟨low, y⟩ := v
  obtain ⟨high, z⟩ := w
  unfold Occurs
  rw [Seam.ext_iff, ← and_or_left]
  refine and_congr_right fun _ => ?_
  simp only [List.infix_cons_iff (a := (low, y)), List.cons_prefix_cons, List.nil_prefix, and_true,
    exists_or, Prod.mk.injEq]
  refine or_congr_left ⟨?_, ?_⟩
  · rintro ⟨_, _, ⟨hlow, -⟩, hhigh, -⟩
    exact ⟨hlow, hhigh⟩
  · rintro ⟨hlow, hhigh⟩
    exact ⟨y, z, ⟨hlow, rfl⟩, hhigh, rfl⟩

/-- Whether the first position is tried. -/
theorem tried_iff {s : Seam K} {minLeaf : Nat} {front rest : List (K × K)} {y z : K}
    (h : ascending s.feature rows = front ++ (s.low, y) :: (s.high, z) :: rest) :
    (!(number s.low == number s.high) &&
        (nodeTotals minLeaf (numbered rows)).admits (front.length + 1)) = true ↔
      s.Parts rows minLeaf := by
  have hsame : (number s.low == number s.high) = true ↔ s.low = s.high := decide_eq_true_iff
  have hsides := length_sides s rows
  have hall : (nodeTotals minLeaf (numbered rows)).count = rows.length := List.length_map _
  have hmin : (nodeTotals minLeaf (numbered rows)).minLeaf = minLeaf := rfl
  have hright : rows.length - (s.left rows).length = (s.right rows).length := by omega
  have hcount : s.low ≠ s.high → front.length + 1 = (s.left rows).length := fun hne => by
    simpa using (left_perm h hne).length_eq
  rw [Bool.and_eq_true, Bool.not_eq_true', ← Bool.not_eq_true, hsame, NodeTotals.admits,
    Bool.and_eq_true, decide_eq_true_iff, decide_eq_true_iff, hmin, hall]
  constructor
  · rintro ⟨hne, hleft, hrest⟩
    rw [hcount hne] at hleft hrest
    exact ⟨hne, hleft, hright ▸ hrest⟩
  · rintro ⟨hne, hleft, hrest⟩
    rw [hcount hne]
    exact ⟨hne, hleft, hright.symm ▸ hrest⟩

/-- The cuts from a position on are the seams that occur there and part the rows, from the lowest
value up. -/
theorem cutsFrom_ascending {feature minLeaf : Nat} (hmin : 0 < minLeaf)
    {front values : List (K × K)} (h : ascending feature rows = front ++ values) :
    ∃ seams : List (Seam K),
      cutsFrom (nodeTotals minLeaf (numbered rows)) feature front.length
        (number (front.map (·.2)).sum) (values.map fun v => (number v.1, number v.2)) =
          seams.map (·.cut rows) ∧
      seams.Pairwise (fun s t => s.low < t.low) ∧
      ∀ s, s ∈ seams ↔ (s.feature = feature ∧ s.Occurs values) ∧ s.Parts rows minLeaf := by
  induction values generalizing front with
  | nil => exact ⟨[], rfl, .nil, by simp [Seam.Occurs]⟩
  | cons v values ih =>
    rcases values with - | ⟨w, rest⟩
    · refine ⟨[], rfl, .nil, ?_⟩
      simp [Seam.Occurs, List.infix_cons_iff]
    have hlater : ascending feature rows = (front ++ [v]) ++ w :: rest := by simp [h]
    obtain ⟨seams, hcuts, hpairs, hmem⟩ := ih hlater
    have hcount : (front ++ [v]).length = front.length + 1 := List.length_append
    have hsum : number ((front ++ [v]).map (·.2)).sum =
        number (front.map (·.2)).sum + number v.2 := by simp [Exact.number_add]
    let first : Seam K := ⟨feature, v.1, w.1⟩
    have hfirst : ascending first.feature rows =
        front ++ (first.low, v.2) :: (first.high, w.2) :: rest := h
    rw [hcount, hsum, List.map_cons] at hcuts
    rw [List.map_cons, List.map_cons, cutsFrom, hcuts]
    by_cases hparts : first.Parts rows minLeaf
    · have hgain := gain_eq_loss minLeaf (left_perm hfirst hparts.apart)
        (hmin.trans_le hparts.left_enough) (hmin.trans_le hparts.right_enough)
      have htargets : front.map (·.2) ++ [v.2] = (front ++ [v]).map (·.2) := by simp
      rw [htargets, List.length_map, hcount, hsum] at hgain
      rw [if_pos ((tried_iff hfirst).2 hparts)]
      refine ⟨first :: seams, ?_, List.pairwise_cons.2 ⟨fun s hs => ?_, hpairs⟩, fun s => ?_⟩
      · rw [List.map_cons, Seam.cut, ← hgain]
      · obtain ⟨⟨-, y, z, hpart⟩, -⟩ := (hmem s).1 hs
        obtain ⟨hlt, -, -⟩ := filter_ascending (ascending_sorted _ _) hfirst hparts.apart
        have hsorted := ascending_sorted feature rows
        rw [hlater] at hsorted
        exact hlt.trans_le <|
          head_le (List.pairwise_append.1 hsorted).2.1 (hpart.subset List.mem_cons_self)
      · rw [List.mem_cons, hmem, Seam.occurs_cons_iff, or_and_right]
        exact or_congr_left ⟨fun hs => ⟨hs, hs ▸ hparts⟩, And.left⟩
    · rw [if_neg (mt (tried_iff hfirst).1 hparts)]
      refine ⟨seams, rfl, hpairs, fun s => ?_⟩
      rw [hmem, Seam.occurs_cons_iff, or_and_right]
      refine (or_iff_right ?_).symm
      rintro ⟨rfl, hs⟩
      exact hparts hs

omit [ExactNumber K] in
theorem mem_known_iff {feature : Nat} {v y : K} :
    (v, y) ∈ known feature rows ↔ ∃ row ∈ rows, featureAt feature row.1 = some v ∧ row.2 = y := by
  simp [known, List.mem_filterMap]

/-- Neighbours among ascending values stand next to each other somewhere. -/
theorem infix_of_neighbours {values : List (K × K)} {low high : K}
    (hsorted : values.Pairwise fun a b => a.1 ≤ b.1) (hlow : ∃ v ∈ values, v.1 = low)
    (hhigh : ∃ v ∈ values, v.1 = high) (hlt : low < high)
    (hbetween : ∀ v ∈ values, v.1 ≤ low ∨ high ≤ v.1) :
    ∃ y z, [(low, y), (high, z)] <:+: values := by
  induction values with
  | nil => simp at hlow
  | cons v values ih =>
    obtain ⟨hleast, hrest⟩ := List.pairwise_cons.1 hsorted
    have hlater : ∃ u ∈ values, u.1 = high := by
      obtain ⟨u, hu, rfl⟩ := hhigh
      rcases List.mem_cons.1 hu with rfl | hu
      · obtain ⟨l, hl, rfl⟩ := hlow
        rcases List.mem_cons.1 hl with rfl | hl
        · exact absurd hlt (lt_irrefl _)
        · exact absurd (hleast l hl) hlt.not_ge
      · exact ⟨u, hu, rfl⟩
    by_cases hagain : ∃ u ∈ values, u.1 = low
    · obtain ⟨y, z, hpart⟩ := ih hrest hagain hlater
        fun u hu => hbetween u (List.mem_cons_of_mem _ hu)
      exact ⟨y, z, List.infix_cons hpart⟩
    · -- The lower value comes for the last time, and the higher one follows it.
      obtain ⟨l, hl, rfl⟩ := hlow
      obtain rfl : l = v := (List.mem_cons.1 hl).resolve_right fun hl => hagain ⟨l, hl, rfl⟩
      obtain ⟨u, hu, rfl⟩ := hlater
      rcases values with - | ⟨w, rest⟩
      · cases hu
      have hw : w.1 = u.1 := by
        rcases hbetween w (List.mem_cons_of_mem _ List.mem_cons_self) with hle | hge
        · have hsame := le_antisymm hle (hleast w List.mem_cons_self)
          exact absurd ⟨w, List.mem_cons_self, hsame⟩ hagain
        · exact le_antisymm (head_le hrest hu) hge
      exact ⟨l.2, w.2, [], rest, by rw [← hw]; rfl⟩

/-- The seams of a feature, by what its values are and not by how they are sorted. -/
theorem occurs_ascending_iff {s : Seam K} (hne : s.low ≠ s.high) :
    s.Occurs (ascending s.feature rows) ↔
    s.low < s.high ∧ (∃ row ∈ rows, featureAt s.feature row.1 = some s.low) ∧
      (∃ row ∈ rows, featureAt s.feature row.1 = some s.high) ∧
      ∀ row ∈ rows, ∀ v, featureAt s.feature row.1 = some v → v ≤ s.low ∨ s.high ≤ v := by
  have hmem : ∀ {v y : K}, (v, y) ∈ ascending s.feature rows ↔
      ∃ row ∈ rows, featureAt s.feature row.1 = some v ∧ row.2 = y :=
    (ascending_perm s.feature rows).mem_iff.trans mem_known_iff
  constructor
  · rintro ⟨y, z, before, after, hvalues⟩
    rw [List.append_assoc] at hvalues
    obtain ⟨hlt, -, hbetween⟩ := filter_ascending (ascending_sorted _ _) hvalues.symm hne
    have hlow : (s.low, y) ∈ ascending s.feature rows := hvalues ▸ by simp
    have hhigh : (s.high, z) ∈ ascending s.feature rows := hvalues ▸ by simp
    obtain ⟨row, hrow, hcell, -⟩ := hmem.1 hlow
    obtain ⟨row', hrow', hcell', -⟩ := hmem.1 hhigh
    refine ⟨hlt, ⟨row, hrow, hcell⟩, ⟨row', hrow', hcell'⟩, fun r hr v hv => ?_⟩
    exact hbetween (v, r.2) (hmem.2 ⟨r, hr, hv, rfl⟩)
  · rintro ⟨hlt, ⟨row, hrow, hcell⟩, ⟨row', hrow', hcell'⟩, hbetween⟩
    refine infix_of_neighbours (ascending_sorted _ _) ?_ ?_ hlt fun v hv => ?_
    · exact ⟨(s.low, row.2), hmem.2 ⟨row, hrow, hcell, rfl⟩, rfl⟩
    · exact ⟨(s.high, row'.2), hmem.2 ⟨row', hrow', hcell', rfl⟩, rfl⟩
    · obtain ⟨r, hr, hv, -⟩ := hmem.1 (show (v.1, v.2) ∈ _ from hv)
      exact hbetween r hr v.1 hv

theorem length_left_le {s t : Seam K} (hfeature : s.feature = t.feature) (hlow : s.low ≤ t.low)
    (rows : List (List (Exact K) × K)) : (s.left rows).length ≤ (t.left rows).length := by
  unfold Seam.left
  rw [← List.countP_eq_length_filter, ← List.countP_eq_length_filter, hfeature]
  refine List.countP_mono_left fun row _ h => ?_
  rw [Option.any_eq_true] at h ⊢
  obtain ⟨v, hv, hle⟩ := h
  exact ⟨v, hv, decide_eq_true ((of_decide_eq_true hle).trans hlow)⟩

/-- Every cut that is tried, and the order in which they are. -/
theorem cuts_numbered (featureCount : Nat) {minLeaf : Nat} (hmin : 0 < minLeaf)
    (rows : List (List (Exact K) × K)) :
    ∃ seams : List (Seam K), cuts featureCount minLeaf (numbered rows) = seams.map (·.cut rows) ∧
      seams.Pairwise (fun s t => ¬ t.Before rows s) ∧
      ∀ s, s ∈ seams ↔ s.Admissible rows featureCount minLeaf := by
  have hfeature : ∀ feature, ∃ seams : List (Seam K),
      cutsFrom (nodeTotals minLeaf (numbered rows)) feature 0 0
        (sortedFeature feature (numbered rows)) = seams.map (·.cut rows) ∧
      seams.Pairwise (fun s t => s.low < t.low) ∧
      ∀ s, s ∈ seams ↔
        (s.feature = feature ∧ s.Occurs (ascending feature rows)) ∧ s.Parts rows minLeaf := by
    intro feature
    rw [sortedFeature_numbered]
    exact cutsFrom_ascending hmin (List.nil_append _).symm
  choose seams hcuts hpairs hmem using hfeature
  refine ⟨(List.range featureCount).flatMap seams, ?_, List.pairwise_flatMap.2 ⟨?_, ?_⟩, ?_⟩
  · rw [cuts, List.map_flatMap]
    exact List.flatMap_congr fun feature _ => hcuts feature
  · intro feature _
    refine (hpairs feature).imp_of_mem fun hs ht hlt => ?_
    obtain rfl := ((hmem feature _).1 hs).1.1
    have hsame := ((hmem _ _).1 ht).1.1
    rintro (hless | ⟨-, hless⟩)
    · omega
    · exact hless.not_ge (length_left_le hsame.symm hlt.le rows)
  · refine List.pairwise_lt_range.imp fun {f g} hfg s hs t ht => ?_
    obtain rfl := ((hmem _ _).1 hs).1.1
    obtain rfl := ((hmem _ _).1 ht).1.1
    rintro (hless | ⟨hsame, -⟩) <;> omega
  · intro s
    simp only [List.mem_flatMap, List.mem_range, hmem]
    constructor
    · rintro ⟨_, hlt, ⟨rfl, hoccurs⟩, hne, hleft, hright⟩
      obtain ⟨hlow, hmemLow, hmemHigh, hbetween⟩ := (occurs_ascending_iff hne).1 hoccurs
      exact ⟨hlt, hmemLow, hmemHigh, hlow, hbetween, hleft, hright⟩
    · intro h
      have hne := h.low_lt.ne
      refine ⟨s.feature, h.feature_lt, ⟨rfl, (occurs_ascending_iff hne).2 ?_⟩, hne,
        h.left_enough, h.right_enough⟩
      exact ⟨h.low_lt, h.low_mem, h.high_mem, h.neighbours⟩

theorem leastGain_eq : leastGain = number (1 / 10 ^ 12 : K) := by
  rw [leastGain, Exact.one_div_natCast (by norm_num)]
  norm_num

/-- One cut is kept if it gains more than the least gain and more than the one kept so far. -/
theorem betterCut_cut (rows : List (List (Exact K) × K)) (best : Option (Seam K)) (c : Seam K) :
    betterCut (best.map (·.cut rows)) (c.cut rows) =
      if 1 / 10 ^ 12 < c.loss rows ∧ ∀ s ∈ best, s.loss rows < c.loss rows then
        some (c.cut rows)
      else best.map (·.cut rows) := by
  unfold betterCut
  congr 1
  rw [leastGain_eq, eq_iff_iff, Bool.and_eq_true, Option.all_eq_true, decide_eq_true_iff]
  refine and_congr Iff.rfl ?_
  simp only [Option.mem_def, Option.map_eq_some_iff, forall_exists_index, and_imp,
    forall_apply_eq_imp_iff₂, decide_eq_true_iff]
  rfl

/-- The best of some seams: the first of those that lose the most, or none if none of them loses
more than the least gain. -/
inductive FirstBest (rows : List (List (Exact K) × K)) : List (Seam K) → Option (Seam K) → Prop
  | small {seams : List (Seam K)} (all_le : ∀ s ∈ seams, s.loss rows ≤ 1 / 10 ^ 12) :
      FirstBest rows seams none
  | large {before after : List (Seam K)} {s : Seam K} (lt_loss : 1 / 10 ^ 12 < s.loss rows)
      (before_lt : ∀ t ∈ before, t.loss rows < s.loss rows)
      (after_le : ∀ t ∈ after, t.loss rows ≤ s.loss rows) :
      FirstBest rows (before ++ s :: after) (some s)

theorem FirstBest.lt_of_better {seams : List (Seam K)} {best : Option (Seam K)}
    (h : FirstBest rows seams best) {c : Seam K} (hc : 1 / 10 ^ 12 < c.loss rows)
    (hbest : ∀ s ∈ best, s.loss rows < c.loss rows) {t : Seam K} (ht : t ∈ seams) :
    t.loss rows < c.loss rows := by
  cases h with
  | small hall => exact (hall t ht).trans_lt hc
  | @large before after s hlarge hbefore hafter =>
    have hs := hbest s rfl
    rcases List.mem_append.1 ht with ht | ht
    · exact (hbefore t ht).trans hs
    · rcases List.mem_cons.1 ht with rfl | ht
      · exact hs
      · exact (hafter t ht).trans_lt hs

/-- One more seam is the best if it is better than the best so far, and otherwise that one stays. -/
theorem FirstBest.step {seams : List (Seam K)} {best : Option (Seam K)}
    (h : FirstBest rows seams best) (c : Seam K) :
    ∃ next, betterCut (best.map (·.cut rows)) (c.cut rows) = next.map (·.cut rows) ∧
      FirstBest rows (seams ++ [c]) next := by
  rw [betterCut_cut]
  split_ifs with hc
  · exact ⟨some c, rfl, .large hc.1 (fun t ht => h.lt_of_better hc.1 hc.2 ht) (by simp)⟩
  · refine ⟨best, rfl, ?_⟩
    cases h with
    | small hall =>
      refine .small fun t ht => ?_
      rcases List.mem_append.1 ht with ht | ht
      · exact hall t ht
      · obtain rfl := List.mem_singleton.1 ht
        exact not_lt.1 fun hlarge => hc ⟨hlarge, by simp⟩
    | @large before after s hlarge hbefore hafter =>
      rw [List.append_assoc, List.cons_append]
      refine .large hlarge hbefore fun t ht => ?_
      rcases List.mem_append.1 ht with ht | ht
      · exact hafter t ht
      · obtain rfl := List.mem_singleton.1 ht
        refine not_lt.1 fun hbetter => hc ⟨hlarge.trans hbetter, fun u hu => ?_⟩
        exact Option.some.inj hu ▸ hbetter

theorem foldl_betterCut (rows : List (List (Exact K) × K)) (seams : List (Seam K)) :
    ∃ best, (seams.map (·.cut rows)).foldl betterCut none = best.map (·.cut rows) ∧
      FirstBest rows seams best := by
  induction seams using List.reverseRecOn with
  | nil => exact ⟨none, rfl, .small (by simp)⟩
  | append_singleton seams c ih =>
    obtain ⟨best, hfold, hbest⟩ := ih
    rw [List.map_append, List.foldl_append, hfold]
    exact hbest.step c

/-- The rows that go left at the threshold are those up to the lower value. -/
theorem goesLeft_cut {s : Seam K} {featureCount minLeaf : Nat}
    (h : s.Admissible rows featureCount minLeaf) {row : List (Exact K) × K} (hrow : row ∈ rows) :
    goesLeft s.feature (s.cut rows).threshold row.1 =
      (featureAt s.feature row.1).any fun v => decide (v ≤ s.low) := by
  obtain ⟨hreach, hshort⟩ := Cut.threshold_between (c := s.cut rows) (show _ from h.low_lt)
  have hbetween := h.neighbours row hrow
  unfold featureAt at hbetween ⊢
  rw [goesLeft, List.getD_eq_getElem?_getD]
  generalize row.1[s.feature]? = cell at hbetween ⊢
  rcases cell with - | (v | -)
  · exact decide_eq_false not_false
  · refine decide_eq_decide.2 ⟨fun hleft => ?_, fun hleft => ?_⟩
    · refine (hbetween v rfl).resolve_right fun hge => hshort ?_
      exact Scalar.OrdersNumbers.le_trans (show number s.high ≤ number v from hge) hleft
    · exact Scalar.OrdersNumbers.le_trans (show number v ≤ number s.low from hleft) hreach
  · exact decide_eq_false not_false

/-- The cut parts the rows where it was counted to part them. -/
theorem part_cut {s : Seam K} {featureCount minLeaf : Nat}
    (h : s.Admissible rows featureCount minLeaf) :
    (s.cut rows).part (numbered rows) = (numbered (s.left rows), numbered (s.right rows)) := by
  rw [Cut.part, List.partition_eq_filter_filter, numbered, List.filter_map, List.filter_map]
  refine Prod.ext (congrArg numbered ?_) (congrArg numbered ?_)
  · exact List.filter_congr fun row hrow => goesLeft_cut h hrow
  · exact List.filter_congr fun row hrow => congrArg (!·) (goesLeft_cut h hrow)

end Seams

/-- Among the seams that leave enough rows on both sides the first of those is cut at which the
squared error loses the most, and none is only if it loses no more than the least gain at any. -/
theorem bestCut_first_greatest [ExactNumber K] (featureCount minLeaf : Nat)
    (rows : List (List (Exact K) × K)) :
    (bestCut featureCount (max minLeaf 1) (numbered rows) = none ↔
      ∀ s : Seam K, s.Admissible rows featureCount (max minLeaf 1) →
        s.loss rows ≤ 1 / 10 ^ 12) ∧
    ∀ c, bestCut featureCount (max minLeaf 1) (numbered rows) = some c →
      ∃ s : Seam K, s.Admissible rows featureCount (max minLeaf 1) ∧ c = s.cut rows ∧
        c.part (numbered rows) = (numbered (s.left rows), numbered (s.right rows)) ∧
        1 / 10 ^ 12 < s.loss rows ∧
        (∀ t : Seam K, t.Admissible rows featureCount (max minLeaf 1) →
          t.loss rows ≤ s.loss rows) ∧
        ∀ t : Seam K, t.Admissible rows featureCount (max minLeaf 1) → t.Before rows s →
          t.loss rows < s.loss rows := by
  have hmin : 0 < max minLeaf 1 := by omega
  obtain ⟨seams, hcuts, hordered, hmem⟩ := cuts_numbered featureCount hmin rows
  rw [bestCut, hcuts]
  obtain ⟨best, hfold, hbest⟩ := foldl_betterCut rows seams
  rw [hfold]
  cases hbest with
  | small hall => exact ⟨iff_of_true rfl fun s hs => hall s ((hmem s).2 hs), fun c hc => nomatch hc⟩
  | @large before after s hlarge hbefore hafter =>
    have hs : s.Admissible rows featureCount (max minLeaf 1) :=
      (hmem s).1 (List.mem_append_right _ List.mem_cons_self)
    -- Where a seam stands among those that are tried tells whether it comes before the best.
    have hplace : ∀ t : Seam K, t.Admissible rows featureCount (max minLeaf 1) →
        t ∈ before ∨ t = s ∨ t ∈ after := by
      intro t ht
      have hlisted := (hmem t).2 ht
      rwa [List.mem_append, List.mem_cons] at hlisted
    refine ⟨iff_of_false (Option.some_ne_none _) fun h => (h s hs).not_gt hlarge, fun c hc => ?_⟩
    obtain rfl := Option.some.inj hc
    refine ⟨s, hs, rfl, part_cut hs, hlarge, fun t ht => ?_, fun t ht hfirst => ?_⟩
    · rcases hplace t ht with hin | rfl | hin
      · exact (hbefore t hin).le
      · exact le_rfl
      · exact hafter t hin
    · rcases hplace t ht with hin | rfl | hin
      · exact hbefore t hin
      · rcases hfirst with hless | ⟨-, hless⟩ <;> omega
      · obtain ⟨-, htail, -⟩ := List.pairwise_append.1 hordered
        exact absurd hfirst ((List.pairwise_cons.1 htail).1 t hin)

end Infill.Tree
