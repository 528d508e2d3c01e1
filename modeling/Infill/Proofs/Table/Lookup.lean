import Infill.Proofs.Success
import Infill.Table.Basic

/-! Reading and writing columns by name. A name stands for the first column that carries it: a write
goes to the column that a read of the same name finds, and leaves every other column, the names,
their order and the number of rows as they are. -/

namespace Infill.Table

variable {α : Type}

theorem column_ok_iff {t : Table α} {name : String} {c : Column α} :
    t.column name = .ok c ↔ t.column? name = some c := by
  unfold column
  cases t.column? name <;> simp

theorem column?_some {t : Table α} {name : String} {c : Column α} (h : t.column? name = some c) :
    c ∈ t.columns ∧ c.name = name :=
  ⟨List.mem_of_find?_eq_some h, by simpa using List.find?_some h⟩

theorem column?_isSome_iff {t : Table α} {name : String} :
    (t.column? name).isSome ↔ name ∈ t.names := by
  simp [column?, names, List.find?_isSome]

theorem exists_column {t : Table α} {name : String} (h : name ∈ t.names) :
    ∃ c, t.column? name = some c :=
  Option.isSome_iff_exists.1 (column?_isSome_iff.2 h)

theorem name_mem_of_column? {t : Table α} {name : String} {c : Column α}
    (h : t.column? name = some c) : name ∈ t.names :=
  column?_isSome_iff.1 (by rw [h]; rfl)

theorem values_ok_iff {c : Column α} {xs : List (Option α)} :
    c.values = .ok xs ↔ c.cells = .numeric xs := by
  unfold Column.values
  cases c.cells <;> simp

theorem times_ok_iff {c : Column α} {ts : List (Option Calendar.DateTime)} :
    c.times = .ok ts ↔ c.cells = .datetime ts := by
  unfold Column.times
  cases c.cells <;> simp

theorem numeric_ok_iff {t : Table α} {name : String} {xs : List (Option α)} :
    t.numeric name = .ok xs ↔ ∃ c, t.column? name = some c ∧ c.cells = .numeric xs := by
  simp only [numeric, bind_ok_iff, column_ok_iff, values_ok_iff]

theorem numeric_congr {t t' : Table α} {name : String} (h : t'.column? name = t.column? name) :
    t'.numeric name = t.numeric name := by
  rw [numeric, numeric, column, column, h]

/-- Where a column of that name stands among others. -/
theorem column?_split {t : Table α} {name : String} {c : Column α} (h : t.column? name = some c) :
    ∃ before after, t.columns = before ++ c :: after ∧ ∀ d ∈ before, d.name ≠ name := by
  obtain ⟨-, before, after, heq, hne⟩ := List.find?_eq_some_iff_append.1 h
  exact ⟨before, after, heq, by simpa using hne⟩

theorem column?_of_split {before after : List (Column α)} {c : Column α} {n : Nat}
    (h : ∀ d ∈ before, d.name ≠ c.name) :
    column? ⟨before ++ c :: after, n⟩ c.name = some c :=
  List.find?_eq_some_iff_append.2 ⟨by simp, before, after, rfl, by simpa using h⟩

theorem column?_of_mem {t : Table α} (ht : t.names.Nodup) {c : Column α} (hc : c ∈ t.columns) :
    t.column? c.name = some c := by
  obtain ⟨before, after, heq⟩ := List.append_of_mem hc
  obtain ⟨columns, rows⟩ := t
  obtain rfl : columns = before ++ c :: after := heq
  refine column?_of_split fun d hd hname => ?_
  rw [names, List.map_append, List.nodup_append] at ht
  exact ht.2.2 d.name (List.mem_map_of_mem hd) c.name (by simp) hname

section Corresponding

variable {R : Column α → Column α → Prop} {t t' : Table α}

/-- Tables whose columns correspond, name for name, have the same names. -/
theorem names_eq_of_forall₂ (hR : ∀ c d, R c d → d.name = c.name)
    (h : List.Forall₂ R t.columns t'.columns) : t'.names = t.names :=
  map_eq_of_forall₂ h hR

/-- A name stands for corresponding columns, or for none. -/
theorem column?_rel_of_forall₂ (hR : ∀ c d, R c d → d.name = c.name)
    (h : List.Forall₂ R t.columns t'.columns) (name : String) :
    Option.Rel (fun c d => c.name = name ∧ R c d) (t.column? name) (t'.column? name) := by
  unfold column?
  generalize t.columns = cs, t'.columns = ds at h
  induction h with
  | nil => exact .none
  | @cons c d cs ds hcd _ ih =>
    rw [List.find?_cons, List.find?_cons, hR c d hcd]
    by_cases hname : c.name = name
    · simp only [hname, decide_true]
      exact .some ⟨hname, hcd⟩
    · simp only [hname, decide_false]
      exact ih

end Corresponding

/-- The first column of the name takes the write. -/
theorem updateFirst_cons (name : String) (f : List (Option α) → List (Option α)) (c : Column α)
    (rest : List (Column α)) : updateFirst name f (c :: rest) =
      if c.name = name then
        c.values.map fun xs => { c with cells := .numeric (f xs) } :: rest
      else (updateFirst name f rest).map (c :: ·) := by
  rw [updateFirst]
  split_ifs with hname
  · unfold Column.values
    rw [hname]
    cases c.cells <;> rfl
  · rfl

theorem updateFirst_split {name : String} {f : List (Option α) → List (Option α)}
    {before after : List (Column α)} {c : Column α} (hb : ∀ d ∈ before, d.name ≠ name)
    (hc : c.name = name) {xs : List (Option α)} (hx : c.cells = .numeric xs) :
    updateFirst name f (before ++ c :: after) =
      .ok (before ++ { c with cells := .numeric (f xs) } :: after) := by
  induction before with
  | nil => rw [List.nil_append, updateFirst_cons, if_pos hc, values_ok_iff.2 hx]; rfl
  | cons d before ih =>
    have hd : d.name ≠ name := hb d (by simp)
    have hrest := ih fun e he => hb e (by simp [he])
    rw [List.cons_append, updateFirst_cons, if_neg hd, hrest]
    rfl

theorem updateFirst_ok {name : String} {f : List (Option α) → List (Option α)}
    {columns new : List (Column α)} (h : updateFirst name f columns = .ok new) :
    ∃ before c after xs, columns = before ++ c :: after ∧ (∀ d ∈ before, d.name ≠ name) ∧
      c.name = name ∧ c.cells = .numeric xs ∧
      new = before ++ { c with cells := .numeric (f xs) } :: after := by
  induction columns generalizing new with
  | nil => simp [updateFirst] at h
  | cons c rest ih =>
    rw [updateFirst_cons] at h
    split_ifs at h with hc
    · obtain ⟨xs, hx, rfl⟩ := map_ok_iff.1 h
      exact ⟨[], c, rest, xs, rfl, by simp, hc, values_ok_iff.1 hx, rfl⟩
    · obtain ⟨new', h', rfl⟩ := map_ok_iff.1 h
      obtain ⟨before, d, after, xs, rfl, hb, hd, hx, rfl⟩ := ih h'
      refine ⟨c :: before, d, after, xs, rfl, ?_, hd, hx, rfl⟩
      intro e he
      rcases List.mem_cons.1 he with rfl | he
      · exact hc
      · exact hb e he

/-- A write of a numeric column, seen from the outside. -/
theorem update_ok {t t' : Table α} {name : String} {f : List (Option α) → List (Option α)}
    (h : t.update name f = .ok t') :
    ∃ before c after xs, t.columns = before ++ c :: after ∧ (∀ d ∈ before, d.name ≠ name) ∧
      c.name = name ∧ c.cells = .numeric xs ∧
      t' = ⟨before ++ { c with cells := .numeric (f xs) } :: after, t.rowCount⟩ := by
  obtain ⟨new, hnew, rfl⟩ := map_ok_iff.1 h
  obtain ⟨before, c, after, xs, heq, hb, hc, hx, rfl⟩ := updateFirst_ok hnew
  exact ⟨before, c, after, xs, heq, hb, hc, hx, rfl⟩

theorem update_total {t : Table α} {name : String} {xs : List (Option α)}
    (h : t.numeric name = .ok xs) (f : List (Option α) → List (Option α)) :
    ∃ t', t.update name f = .ok t' := by
  obtain ⟨c, hc, hx⟩ := numeric_ok_iff.1 h
  obtain ⟨before, after, heq, hb⟩ := column?_split hc
  unfold update
  rw [heq, updateFirst_split hb (column?_some hc).2 hx]
  exact ⟨_, rfl⟩

theorem update_numeric_self {t t' : Table α} {name : String}
    {f : List (Option α) → List (Option α)} (h : t.update name f = .ok t') :
    ∃ xs, t.numeric name = .ok xs ∧ t'.numeric name = .ok (f xs) := by
  obtain ⟨before, c, after, xs, heq, hb, rfl, hx, rfl⟩ := update_ok h
  refine ⟨xs, numeric_ok_iff.2 ⟨c, ?_, hx⟩, numeric_ok_iff.2 ⟨_, column?_of_split hb, rfl⟩⟩
  have : column? ⟨before ++ c :: after, t.rowCount⟩ c.name = some c := column?_of_split hb
  rwa [← heq] at this

theorem update_column?_other {t t' : Table α} {name other : String}
    {f : List (Option α) → List (Option α)} (h : t.update name f = .ok t') (hne : other ≠ name) :
    t'.column? other = t.column? other := by
  obtain ⟨before, c, after, xs, heq, -, rfl, -, rfl⟩ := update_ok h
  simp [column?, heq, List.find?_append, hne.symm]

theorem update_numeric_total {t t' : Table α} {name other : String}
    {f : List (Option α) → List (Option α)} (h : t.update name f = .ok t')
    (hx : ∃ xs, t.numeric other = .ok xs) : ∃ ys, t'.numeric other = .ok ys := by
  by_cases hne : other = name
  · obtain ⟨xs, -, hnew⟩ := update_numeric_self h
    exact ⟨_, hne ▸ hnew⟩
  · obtain ⟨xs, hx⟩ := hx
    obtain ⟨c, hc, hcells⟩ := numeric_ok_iff.1 hx
    exact ⟨xs, numeric_ok_iff.2 ⟨c, (update_column?_other h hne).trans hc, hcells⟩⟩

theorem update_names {t t' : Table α} {name : String} {f : List (Option α) → List (Option α)}
    (h : t.update name f = .ok t') : t'.names = t.names := by
  obtain ⟨before, c, after, xs, heq, -, -, -, rfl⟩ := update_ok h
  simp [names, heq]

theorem update_rowCount {t t' : Table α} {name : String} {f : List (Option α) → List (Option α)}
    (h : t.update name f = .ok t') : t'.rowCount = t.rowCount := by
  obtain ⟨-, -, -, -, -, -, -, -, rfl⟩ := update_ok h
  rfl

theorem update_of_fixed {t : Table α} {name : String} {xs : List (Option α)}
    {f : List (Option α) → List (Option α)} (h : t.numeric name = .ok xs) (hf : f xs = xs) :
    t.update name f = .ok t := by
  obtain ⟨c, hc, hx⟩ := numeric_ok_iff.1 h
  obtain ⟨before, after, heq, hb⟩ := column?_split hc
  rw [update, heq, updateFirst_split hb (column?_some hc).2 hx, hf, ← hx]
  exact congrArg (fun columns => Except.ok { t with columns }) heq.symm

/-- Two writes to one column are one. -/
theorem update_update {t t' : Table α} {name : String} {f : List (Option α) → List (Option α)}
    (h : t.update name f = .ok t') (g : List (Option α) → List (Option α)) :
    t'.update name g = t.update name (g ∘ f) := by
  obtain ⟨before, c, after, xs, heq, hb, hname, hx, rfl⟩ := update_ok h
  have hnew : ({ c with cells := .numeric (f xs) } : Column α).name = name := hname
  unfold update
  rw [heq, updateFirst_split hb hname hx, updateFirst_split hb hnew rfl]
  rfl

end Infill.Table
