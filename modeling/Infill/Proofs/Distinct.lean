import Mathlib.Data.List.Induction
import Mathlib.Data.List.Nodup
import Mathlib.Data.List.ProdSigma
import Mathlib.Data.Prod.Basic

/-! The distinct members of a list, in the order of their first occurrences. -/

namespace Infill

variable {β γ : Type} [BEq β] [LawfulBEq β] [BEq γ] [LawfulBEq γ]

theorem eraseDups_concat (xs : List β) (x : β) :
    (xs ++ [x]).eraseDups = if x ∈ xs then xs.eraseDups else xs.eraseDups ++ [x] := by
  rw [List.eraseDups_append]
  split_ifs with hx <;> simp [List.removeAll, hx, List.eraseDups_cons]

theorem nodup_eraseDups (xs : List β) : xs.eraseDups.Nodup := by
  induction xs using List.reverseRecOn with
  | nil => exact .nil
  | append_singleton xs x ih =>
    rw [eraseDups_concat]
    split_ifs with hx
    · exact ih
    · refine List.nodup_append.2 ⟨ih, by simp, ?_⟩
      rintro a ha b hb rfl
      exact hx (List.mem_singleton.1 hb ▸ List.mem_eraseDups.1 ha)

theorem eraseDups_of_nodup {xs : List β} (h : xs.Nodup) : xs.eraseDups = xs := by
  induction xs using List.reverseRecOn with
  | nil => rfl
  | append_singleton xs x ih =>
    obtain ⟨hxs, -, hne⟩ := List.nodup_append.1 h
    have hx : x ∉ xs := fun hx => hne x hx x (by simp) rfl
    rw [eraseDups_concat, if_neg hx, ih hxs]

theorem eraseDups_filter (xs : List β) (f : β → Bool) :
    (xs.filter f).eraseDups = xs.eraseDups.filter f := by
  induction xs using List.reverseRecOn with
  | nil => rfl
  | append_singleton xs x ih =>
    rw [List.filter_append, eraseDups_concat]
    by_cases hf : f x = true
    · rw [List.filter_cons_of_pos hf, List.filter_nil, eraseDups_concat, ih]
      by_cases hx : x ∈ xs <;> simp [hx, hf]
    · rw [List.filter_cons_of_neg hf, List.filter_nil, List.append_nil, ih]
      split_ifs <;> simp [hf]

/-- The distinct members stand in the order of their first occurrences. -/
theorem eraseDups_pairwise (xs : List β) :
    xs.eraseDups.Pairwise fun a b => xs.idxOf a < xs.idxOf b := by
  induction xs using List.reverseRecOn with
  | nil => exact .nil
  | append_singleton xs x ih =>
    have hold : ∀ a ∈ xs.eraseDups, (xs ++ [x]).idxOf a = xs.idxOf a := fun a ha =>
      List.idxOf_append_of_mem (List.mem_eraseDups.1 ha)
    have hkept : xs.eraseDups.Pairwise fun a b => (xs ++ [x]).idxOf a < (xs ++ [x]).idxOf b := by
      refine ih.imp_of_mem fun ha hb hlt => ?_
      rwa [hold _ ha, hold _ hb]
    rw [eraseDups_concat]
    split_ifs with hx
    · exact hkept
    · refine List.pairwise_append.2 ⟨hkept, List.pairwise_singleton _ _, fun a ha b hb => ?_⟩
      obtain rfl := List.mem_singleton.1 hb
      rw [hold a ha, List.idxOf_append_of_notMem hx]
      exact Nat.lt_add_right _ (List.idxOf_lt_length_of_mem (List.mem_eraseDups.1 ha))

/-- What tells the members of a list apart keeps the distinct ones. -/
theorem eraseDups_map {f : β → γ} {xs : List β} (h : ∀ a ∈ xs, ∀ b ∈ xs, f a = f b → a = b) :
    (xs.map f).eraseDups = xs.eraseDups.map f := by
  induction xs using List.reverseRecOn with
  | nil => rfl
  | append_singleton xs x ih =>
    have ih := ih fun a ha b hb => h a (List.mem_append_left _ ha) b (List.mem_append_left _ hb)
    rw [List.map_append, List.map_singleton, eraseDups_concat, eraseDups_concat, ih]
    by_cases hx : x ∈ xs
    · rw [if_pos hx, if_pos (List.mem_map_of_mem hx)]
    · have hfresh : f x ∉ xs.map f := by
        intro hmem
        obtain ⟨a, ha, heq⟩ := List.mem_map.1 hmem
        exact hx (h a (by simp [ha]) x (by simp) heq ▸ ha)
      rw [if_neg hx, if_neg hfresh, List.map_append, List.map_singleton]

theorem length_eraseDups_perm {xs ys : List β} (h : xs.Perm ys) :
    xs.eraseDups.length = ys.eraseDups.length := by
  refine List.Perm.length_eq ((List.perm_ext_iff_of_nodup (nodup_eraseDups xs)
    (nodup_eraseDups ys)).2 fun x => ?_)
  rw [List.mem_eraseDups, List.mem_eraseDups, h.mem_iff]

/-- Pairs repeat where their first parts do. -/
theorem eraseDups_product (xs : List β) {ys : List γ} (h : ys.Nodup) :
    (xs ×ˢ ys).eraseDups = xs.eraseDups ×ˢ ys := by
  have concat : ∀ (zs : List β) (x : β), (zs ++ [x]) ×ˢ ys = zs ×ˢ ys ++ ys.map (x, ·) := by
    intro zs x
    simp [SProd.sprod, List.product]
  induction xs using List.reverseRecOn with
  | nil => rfl
  | append_singleton xs x ih =>
    rw [concat, List.eraseDups_append, ih, eraseDups_concat]
    by_cases hx : x ∈ xs
    · have hnone : (ys.map (x, ·)).removeAll (xs ×ˢ ys) = [] := by
        simp [List.removeAll, hx]
      rw [if_pos hx, hnone, List.eraseDups_nil, List.append_nil]
    · have hall : (ys.map (x, ·)).removeAll (xs ×ˢ ys) = ys.map (x, ·) := by
        simp [List.removeAll, hx]
      rw [if_neg hx, hall, concat, eraseDups_of_nodup (h.map (Prod.mk_right_injective x))]

end Infill
