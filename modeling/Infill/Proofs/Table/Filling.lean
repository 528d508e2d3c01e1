import Infill.Proofs.Table.Shape

/-! A table fills another one when it has the same columns and rows and the same cells, apart from
missing numbers of writable columns, which may hold anything. Writing cells that were missing from
the start, one after the other, fills a table. -/

namespace Infill

variable {α : Type} [Scalar α]

inductive Cells.Fills : Cells α → Cells α → Prop
  | same (cells : Cells α) : Fills cells cells
  | numeric {xs ys : List (Option α)} (length : ys.length = xs.length)
      (observed : ∀ i, (Cells.numeric xs).isMissing i = false → ys[i]? = xs[i]?) :
      Fills (.numeric xs) (.numeric ys)

structure Column.Fills (writable : String → Prop) (old new : Column α) : Prop where
  name : new.name = old.name
  cells : old.cells.Fills new.cells
  closed : ¬ writable old.name → new.cells = old.cells

structure Table.Fills (writable : String → Prop) (old new : Table α) : Prop where
  rowCount : new.rowCount = old.rowCount
  columns : List.Forall₂ (Column.Fills writable) old.columns new.columns

def Table.MissingAt (t : Table α) (name : String) (row : Nat) : Prop :=
  ∃ c, t.column? name = some c ∧ c.cells.isMissing row = true

namespace Cells

theorem mask_eq (cells : Cells α) :
    cells.mask = (List.range cells.length).map cells.isMissing := by
  cases cells <;>
  · refine List.ext_getElem (by simp [mask, length]) fun i hi hi' => ?_
    simp only [mask, List.length_map] at hi
    simp [mask, isMissing, hi]

theorem missingCount_eq_zero_iff {cells : Cells α} :
    cells.missingCount = 0 ↔ ∀ row < cells.length, cells.isMissing row = false := by
  simp [missingCount, mask_eq, List.count_eq_zero]

end Cells

theorem isMissing_numeric_iff {xs : List (Option α)} {i : Nat} :
    (Cells.numeric xs).isMissing i = true ↔ Scalar.observed xs[i]?.join = none := by
  cases h : xs[i]? with
  | none => simp [Cells.isMissing, h, Scalar.observed]
  | some x => simp [Cells.isMissing, h]

theorem isMissing_congr {xs ys : List (Option α)} {i : Nat} (h : ys[i]? = xs[i]?) :
    (Cells.numeric ys).isMissing i = (Cells.numeric xs).isMissing i := by
  simp [Cells.isMissing, h]

theorem Table.missingAt_iff {t : Table α} {name : String} {xs : List (Option α)}
    (h : t.numeric name = .ok xs) {row : Nat} :
    t.MissingAt name row ↔ (Cells.numeric xs).isMissing row = true := by
  obtain ⟨c, hc, hx⟩ := numeric_ok_iff.1 h
  simp [MissingAt, hc, hx]

theorem Table.missingRows_total {t : Table α} {name : String} (h : name ∈ t.names) :
    ∃ missing, t.missingRows name = .ok missing := by
  obtain ⟨c, hc⟩ := exists_column h
  exact ⟨_, bind_ok_iff.2 ⟨c, column_ok_iff.2 hc, rfl⟩⟩

theorem Table.pairwise_missingRows {t : Table α} {name : String} {missing : List Nat}
    (h : t.missingRows name = .ok missing) : missing.Pairwise (· < ·) := by
  obtain ⟨c, -, h⟩ := bind_ok_iff.1 h
  obtain rfl := pure_ok_iff.1 h
  exact List.pairwise_lt_range.filter _

theorem Table.mem_missingRows {t : Table α} {name : String} {missing : List Nat}
    (h : t.missingRows name = .ok missing) {row : Nat} :
    row ∈ missing ↔ row < t.rowCount ∧ t.MissingAt name row := by
  obtain ⟨c, hc, h⟩ := bind_ok_iff.1 h
  obtain rfl := pure_ok_iff.1 h
  simp [MissingAt, column_ok_iff.1 hc]

namespace Cells.Fills

theorem length_eq {a b : Cells α} (h : a.Fills b) : b.length = a.length := by
  cases h with
  | same => rfl
  | numeric hl _ => exact hl

theorem missing {a b : Cells α} (h : a.Fills b) {row : Nat} (hm : b.isMissing row = true) :
    a.isMissing row = true := by
  cases h with
  | same => exact hm
  | numeric _ ho =>
    by_contra hne
    rw [Bool.not_eq_true] at hne
    rw [isMissing_congr (ho row hne), hne] at hm
    exact absurd hm (by simp)

theorem set {a : Cells α} {xs : List (Option α)} {i : Nat} (h : a.Fills (.numeric xs))
    (hm : a.isMissing i = true) (v : Option α) : a.Fills (.numeric (xs.set i v)) := by
  have key : ∀ {zs : List (Option α)}, zs.length = xs.length →
      (∀ j, (Cells.numeric zs).isMissing j = false → xs[j]? = zs[j]?) →
      (Cells.numeric zs).isMissing i = true →
      (Cells.numeric zs).Fills (.numeric (xs.set i v)) := by
    intro zs hl ho hm
    refine numeric (by simp [hl]) fun j hj => ?_
    have hij : i ≠ j := by
      rintro rfl
      rw [hm] at hj
      exact absurd hj (by simp)
    rw [List.getElem?_set_ne hij, ho j hj]
  cases h with
  | same => exact key rfl (fun _ _ => rfl) hm
  | numeric hl ho => exact key hl.symm ho hm

end Cells.Fills

namespace Table.Fills

variable {writable : String → Prop} {t t' t'' : Table α}

theorem refl (writable : String → Prop) (t : Table α) : t.Fills writable t :=
  ⟨rfl, List.forall₂_same.2 fun c _ => ⟨rfl, .same c.cells, fun _ => rfl⟩⟩

theorem names_eq (h : t.Fills writable t') : t'.names = t.names :=
  names_eq_of_forall₂ (fun _ _ hcd => hcd.name) h.columns

/-- Columns of one name correspond. -/
theorem column? (h : t.Fills writable t') {name : String} {c : Column α}
    (hc : t'.column? name = some c) : ∃ b, t.column? name = some b ∧ b.Fills writable c := by
  have hrel := column?_rel_of_forall₂ (fun _ _ hcd => hcd.name) h.columns name
  rw [hc] at hrel
  generalize t.column? name = x at hrel
  cases hrel with
  | some hcd => exact ⟨_, rfl, hcd.2⟩

theorem missingAt (h : t.Fills writable t') {name : String} {row : Nat}
    (hm : t'.MissingAt name row) : t.MissingAt name row := by
  obtain ⟨c, hc, hm⟩ := hm
  obtain ⟨b, hb, hbc⟩ := h.column? hc
  exact ⟨b, hb, hbc.cells.missing hm⟩

theorem numeric (h : t.Fills writable t') {name : String} {xs : List (Option α)}
    (hx : t.numeric name = .ok xs) : ∃ ys, t'.numeric name = .ok ys := by
  obtain ⟨c, hc, hcx⟩ := numeric_ok_iff.1 hx
  have hrel := column?_rel_of_forall₂ (fun _ _ hcd => hcd.name) h.columns name
  rw [hc] at hrel
  obtain ⟨d, hd, -, hcd⟩ : ∃ d, t'.column? name = some d ∧ c.name = name ∧ c.Fills writable d := by
    generalize t'.column? name = y at hrel
    cases hrel with
    | some hcd => exact ⟨_, rfl, hcd⟩
  have hcells := hcd.cells
  rw [hcx] at hcells
  generalize hdx : d.cells = ds at hcells
  cases hcells with
  | same => exact ⟨xs, numeric_ok_iff.2 ⟨d, hd, hdx⟩⟩
  | @numeric _ ys => exact ⟨ys, numeric_ok_iff.2 ⟨d, hd, hdx⟩⟩

theorem rectangular (h : t.Fills writable t') (ht : t.Rectangular) : t'.Rectangular := by
  intro d hd
  obtain ⟨c, hc, hcd⟩ := forall₂_mem_right h.columns hd
  rw [h.rowCount, ← ht c hc]
  exact hcd.cells.length_eq

theorem setCell (h : t.Fills writable t') {name : String} {row : Nat} {v : Option α}
    (hm : t.MissingAt name row) (hw : writable name) (hs : t'.setCell name row v = .ok t'') :
    t.Fills writable t'' := by
  have key : ∀ {cs ds es : List (Column α)}, List.Forall₂ (Column.Fills writable) cs ds →
      (∃ c, cs.find? (·.name = name) = some c ∧ c.cells.isMissing row = true) →
      updateFirst name (·.set row v) ds = .ok es →
      List.Forall₂ (Column.Fills writable) cs es := by
    intro cs ds es hcols hm hs
    induction hcols generalizing es with
    | nil => simp at hm
    | @cons c d cs ds hcd hrest ih =>
      rw [updateFirst_cons, hcd.name] at hs
      by_cases hname : c.name = name
      · simp only [List.find?_cons, hname, decide_true, Option.some.injEq, exists_eq_left'] at hm
        rw [if_pos hname] at hs
        obtain ⟨xs, hx, rfl⟩ := map_ok_iff.1 hs
        have hfill := hcd.cells
        rw [values_ok_iff.1 hx] at hfill
        have hclosed : ¬ writable c.name → Cells.numeric (xs.set row v) = c.cells :=
          fun hne => absurd (hname ▸ hw) hne
        exact .cons ⟨rfl, hfill.set hm v, hclosed⟩ hrest
      · simp only [List.find?_cons, hname, decide_false] at hm
        rw [if_neg hname] at hs
        obtain ⟨es', hes, rfl⟩ := map_ok_iff.1 hs
        exact .cons hcd (ih hm hes)
  obtain ⟨es, hes, rfl⟩ := map_ok_iff.1 hs
  exact ⟨h.rowCount, key h.columns hm hes⟩

end Table.Fills

end Infill
