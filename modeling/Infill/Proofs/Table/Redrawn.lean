import Mathlib.Data.List.Nodup
import Infill.Proofs.Table.Lookup

/-! Columns whose cells are drawn anew, each from what it was, its row and its column. Columns of
different names are drawn one after the other without getting in each other's way. -/

namespace Infill

variable {α : Type}

open Table

/-- A write leaves every place alone but that of the first column of its name. -/
theorem Table.update_elsewhere {t t' : Table α} {name : String}
    {f : List (Option α) → List (Option α)} (h : t.update name f = .ok t') {k : Nat}
    (hk : t.names.idxOf name ≠ k) : t'.columns[k]? = t.columns[k]? := by
  obtain ⟨before, c, after, xs, heq, hb, rfl, -, rfl⟩ := update_ok h
  have hplace : t.names.idxOf c.name = before.length := by
    have hout : c.name ∉ before.map (·.name) := by simpa using hb
    rw [Table.names, heq, List.map_append, List.map_cons, List.idxOf_append_of_notMem hout,
      List.idxOf_cons_self, List.length_map, Nat.add_zero]
  have hset : before ++ { c with cells := .numeric (f xs) } :: after =
      t.columns.set before.length { c with cells := .numeric (f xs) } := by simp [heq]
  change (before ++ { c with cells := .numeric (f xs) } :: after)[k]? = t.columns[k]?
  rw [hset, List.getElem?_set_ne (hplace ▸ hk)]

/-- The cells of the named columns are drawn anew, and nothing else changes. -/
structure Table.Redrawn (columns : List String) (draw : Nat → Nat → Option α → Option α)
    (t t' : Table α) : Prop where
  rowCount : t'.rowCount = t.rowCount
  names : t'.names = t.names
  numeric : ∀ j name xs, columns[j]? = some name → t.numeric name = .ok xs →
    t'.numeric name = .ok (xs.mapIdx (draw j))
  elsewhere : ∀ k, (∀ name ∈ columns, t.names.idxOf name ≠ k) → t'.columns[k]? = t.columns[k]?

namespace Table.Redrawn

variable {columns : List String} {draw draw' : Nat → Nat → Option α → Option α} {t t' t'' : Table α}

theorem refl (columns : List String) (t : Table α) :
    t.Redrawn columns (fun _ _ cell => cell) t where
  rowCount := rfl
  names := rfl
  numeric _ _ xs _ hx := by
    rw [hx]
    exact congrArg Except.ok (List.ext_getElem? fun row => by simp)
  elsewhere _ _ := rfl

theorem trans (h : t.Redrawn columns draw t') (h' : t'.Redrawn columns draw' t'') :
    t.Redrawn columns (fun j row cell => draw' j row (draw j row cell)) t'' where
  rowCount := h'.rowCount.trans h.rowCount
  names := h'.names.trans h.names
  numeric j name xs hj hx := by
    rw [h'.numeric j name _ hj (h.numeric j name xs hj hx), List.mapIdx_mapIdx]
    rfl
  elsewhere k hk := (h'.elsewhere k (h.names ▸ hk)).trans (h.elsewhere k hk)

theorem congr (h : t.Redrawn columns draw t') (hdraw : ∀ j, j < columns.length → draw j = draw' j) :
    t.Redrawn columns draw' t' where
  rowCount := h.rowCount
  names := h.names
  numeric j name xs hj hx := by
    rw [← hdraw j (List.getElem?_eq_some_iff.1 hj).1]
    exact h.numeric j name xs hj hx
  elsewhere := h.elsewhere

theorem update (hdistinct : columns.Nodup) {j : Nat} {name : String} (hj : columns[j]? = some name)
    {xs : List (Option α)} (hx : t.numeric name = .ok xs)
    {f : List (Option α) → List (Option α)} {draw : Nat → Option α → Option α}
    (hf : f xs = xs.mapIdx draw) (h : t.update name f = .ok t') :
    t.Redrawn columns (fun i => if i = j then draw else fun _ cell => cell) t' where
  rowCount := update_rowCount h
  names := update_names h
  numeric i other ys hi hy := by
    by_cases hij : i = j
    · subst hij
      obtain rfl := Option.some.inj (hj.symm.trans hi)
      obtain ⟨xs', hx', hnew⟩ := update_numeric_self h
      obtain rfl := Except.ok.inj (hx.symm.trans hx')
      obtain rfl := Except.ok.inj (hx.symm.trans hy)
      rw [hnew, hf, if_pos rfl]
    · have hne : other ≠ name := by
        rintro rfl
        have hlt := (List.getElem?_eq_some_iff.1 hi).1
        exact hij ((List.getElem?_inj hlt hdistinct).1 (hi.trans hj.symm))
      obtain ⟨c, hc, hcells⟩ := numeric_ok_iff.1 hy
      rw [if_neg hij, numeric_ok_iff]
      refine ⟨c, (update_column?_other h hne).trans hc, hcells.trans ?_⟩
      exact congrArg Cells.numeric (List.ext_getElem? fun row => by simp)
  elsewhere _ hk := update_elsewhere h (hk name (List.mem_of_getElem? hj))

theorem update_one {name : String} {xs : List (Option α)} (hx : t.numeric name = .ok xs)
    {f : List (Option α) → List (Option α)} {draw : Nat → Option α → Option α}
    (hf : f xs = xs.mapIdx draw) (h : t.update name f = .ok t') :
    t.Redrawn [name] (fun _ => draw) t' :=
  (update (List.nodup_singleton name) rfl hx hf h).congr fun _ hj =>
    if_pos (Nat.lt_one_iff.1 hj)

end Table.Redrawn

end Infill
