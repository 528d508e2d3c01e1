import Mathlib.Data.List.Nodup
import Mathlib.Data.List.Pairwise
import Mathlib.Order.Lattice
import Infill.Calendar.DateTime
import Infill.Table.Axis

/-! An axis holds the values that it was built from, each of them once, in ascending order. So the
values that stand at its end are those with few others above them. -/

namespace Infill

namespace Axis

variable {β : Type} [BEq β] [LawfulBEq β]

theorem mem_insert {before : β → β → Bool} {x y : β} {axis : List β} :
    y ∈ insert before x axis ↔ y = x ∨ y ∈ axis := by
  induction axis with
  | nil => simp [insert]
  | cons z rest ih =>
    unfold insert
    split
    · rename_i hxz
      obtain rfl := eq_of_beq hxz
      simp
    split
    · simp
    · rw [List.mem_cons, ih, List.mem_cons]
      tauto

theorem mem_ascending {before : β → β → Bool} {xs : List β} {y : β} :
    y ∈ ascending before xs ↔ y ∈ xs := by
  have key : ∀ axis : List β, y ∈ xs.foldl (fun axis x => insert before x axis) axis ↔
      y ∈ axis ∨ y ∈ xs := by
    induction xs with
    | nil => simp
    | cons x xs ih =>
      intro axis
      rw [List.foldl_cons, ih, mem_insert, List.mem_cons]
      tauto
  rw [ascending, key]
  simp

structure Strict (before : β → β → Bool) : Prop where
  irrefl : ∀ a, before a a = false
  trans : ∀ a b c, before a b = true → before b c = true → before a c = true
  total : ∀ a b, a ≠ b → before a b = false → before b a = true

variable {before : β → β → Bool}

theorem pairwise_insert (hb : Strict before) (x : β) {axis : List β}
    (h : axis.Pairwise (before · ·)) : (insert before x axis).Pairwise (before · ·) := by
  induction h with
  | nil => simp [insert]
  | @cons y rest hy hrest ih =>
    unfold insert
    split
    · exact .cons hy hrest
    rename_i hne
    split
    · rename_i hxy
      refine .cons ?_ (.cons hy hrest)
      intro z hz
      rcases List.mem_cons.1 hz with rfl | hz
      · exact hxy
      · exact hb.trans x y z hxy (hy z hz)
    · rename_i hxy
      refine .cons ?_ ih
      intro z hz
      rcases mem_insert.1 hz with rfl | hz
      · exact hb.total z y (by simpa using hne) (by simpa using hxy)
      · exact hy z hz

theorem pairwise_ascending (hb : Strict before) (xs : List β) :
    (ascending before xs).Pairwise (before · ·) := by
  have key : ∀ axis : List β, axis.Pairwise (before · ·) →
      (xs.foldl (fun axis x => insert before x axis) axis).Pairwise (before · ·) := by
    induction xs with
    | nil => exact fun _ h => h
    | cons x xs ih => exact fun axis h => ih _ (pairwise_insert hb x h)
  exact key [] .nil

omit [BEq β] [LawfulBEq β] in
theorem Strict.nodup (hb : Strict before) {axis : List β} (h : axis.Pairwise (before · ·)) :
    axis.Nodup := by
  refine h.imp ?_
  rintro a _ h rfl
  rw [hb.irrefl] at h
  exact absurd h (by simp)

theorem nodup_ascending (hb : Strict before) (xs : List β) : (ascending before xs).Nodup :=
  hb.nodup (pairwise_ascending hb xs)

/-- Ascending values are the axis of whatever holds them all, in any order and any number. -/
theorem ascending_eq (hb : Strict before) {xs axis : List β} (haxis : axis.Pairwise (before · ·))
    (hmem : ∀ x, x ∈ xs ↔ x ∈ axis) : ascending before xs = axis := by
  have hperm : (ascending before xs).Perm axis :=
    (List.perm_ext_iff_of_nodup (nodup_ascending hb xs) (hb.nodup haxis)).2
      fun x => mem_ascending.trans (hmem x)
  refine hperm.eq_of_pairwise (fun a b _ _ hab hba => ?_) (pairwise_ascending hb xs) haxis
  have hloop := hb.trans a b a hab hba
  rw [hb.irrefl] at hloop
  exact absurd hloop (by simp)

theorem strict_lt {γ : Type} [LinearOrder γ] : Strict fun a b : γ => decide (a < b) where
  irrefl a := by simp
  trans a b c := by
    simp only [decide_eq_true_eq]
    exact lt_trans
  total a b := by
    simp only [decide_eq_false_iff_not, decide_eq_true_eq, not_lt]
    exact fun hne hba => lt_of_le_of_ne hba (Ne.symm hne)

end Axis

namespace Calendar

theorem DateTime.before_strict : Axis.Strict DateTime.before where
  irrefl a := by simp [before]
  trans a b c := by
    simp only [before, Bool.or_eq_true, Bool.and_eq_true, decide_eq_true_eq]
    omega
  total a b := by
    obtain ⟨⟨y, m, d⟩, h, i, s⟩ := a
    obtain ⟨⟨y', m', d'⟩, h', i', s'⟩ := b
    simp only [before, Bool.or_eq_true, Bool.and_eq_true, decide_eq_true_eq, Bool.or_eq_false_iff,
      Bool.and_eq_false_iff, decide_eq_false_iff_not, ne_eq, mk.injEq, Date.mk.injEq]
    omega

end Calendar

end Infill
