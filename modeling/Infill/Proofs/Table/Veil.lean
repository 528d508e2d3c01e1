import Infill.Proofs.Agreement
import Infill.Proofs.Table.Shape

/-! Two tables that differ in hidden cells only: in some rows of some columns. Building a table out
of columns, and writing to columns that nothing is hidden of, keeps it so. -/

namespace Infill

variable {α : Type}

/-- Lists of one length that are the same outside of the hidden places. -/
structure EqOff {β : Type} (hidden : Nat → Prop) (xs ys : List β) : Prop where
  length : ys.length = xs.length
  shown : ∀ i, ¬ hidden i → ys[i]? = xs[i]?

inductive Cells.Veiled (hidden : Nat → Prop) : Cells α → Cells α → Prop
  | numeric {xs ys : List (Option α)} (h : EqOff hidden xs ys) :
      Veiled hidden (.numeric xs) (.numeric ys)
  | categorical {xs ys : List (Option String)} (h : EqOff hidden xs ys) :
      Veiled hidden (.categorical xs) (.categorical ys)
  | datetime {xs ys : List (Option Calendar.DateTime)} (h : EqOff hidden xs ys) :
      Veiled hidden (.datetime xs) (.datetime ys)

structure Column.Veiled (veil : String → Prop) (hidden : Nat → Prop) (c d : Column α) : Prop where
  name : d.name = c.name
  cells : c.cells.Veiled hidden d.cells
  plain : ¬ veil c.name → d.cells = c.cells

structure Table.Veiled (veil : String → Prop) (hidden : Nat → Prop) (t t' : Table α) : Prop where
  rowCount : t'.rowCount = t.rowCount
  columns : List.Forall₂ (Column.Veiled veil hidden) t.columns t'.columns

namespace EqOff

variable {β : Type} {hidden : Nat → Prop} {xs ys zs : List β}

theorem symm (h : EqOff hidden xs ys) : EqOff hidden ys xs :=
  ⟨h.length.symm, fun i hi => (h.shown i hi).symm⟩

theorem trans (h : EqOff hidden xs ys) (h' : EqOff hidden ys zs) : EqOff hidden xs zs :=
  ⟨h'.length.trans h.length, fun i hi => (h'.shown i hi).trans (h.shown i hi)⟩

theorem refl (hidden : Nat → Prop) (xs : List β) : EqOff hidden xs xs := ⟨rfl, fun _ _ => rfl⟩

/-- Where everything is hidden, the length is all that is left. -/
theorem of_length (h : ys.length = xs.length) (hall : ∀ i < xs.length, hidden i) :
    EqOff hidden xs ys := by
  refine ⟨h, fun i hi => ?_⟩
  have hle : xs.length ≤ i := Nat.le_of_not_lt fun hlt => hi (hall i hlt)
  rw [List.getElem?_eq_none hle, List.getElem?_eq_none (h ▸ hle)]

/-- One list behind the other: the places of the second one start where the first one ends. -/
theorem append {xs' ys' : List β} (h : EqOff hidden xs ys)
    (h' : EqOff (fun i => hidden (xs.length + i)) xs' ys') :
    EqOff hidden (xs ++ xs') (ys ++ ys') := by
  refine ⟨by rw [List.length_append, List.length_append, h.length, h'.length], fun i hi => ?_⟩
  by_cases hlt : i < xs.length
  · rw [List.getElem?_append_left hlt, List.getElem?_append_left (h.length ▸ hlt), h.shown i hi]
  · have hle : xs.length ≤ i := Nat.le_of_not_lt hlt
    rw [List.getElem?_append_right hle, List.getElem?_append_right (h.length ▸ hle), h.length,
      h'.shown (i - xs.length) (by rwa [Nat.add_sub_cancel' hle])]

end EqOff

variable {veil : String → Prop} {hidden : Nat → Prop}

theorem Cells.Veiled.refl (hidden : Nat → Prop) (cells : Cells α) : cells.Veiled hidden cells := by
  cases cells with
  | numeric xs => exact .numeric (.refl hidden xs)
  | categorical xs => exact .categorical (.refl hidden xs)
  | datetime xs => exact .datetime (.refl hidden xs)

theorem Cells.Veiled.symm {a b : Cells α} (h : a.Veiled hidden b) : b.Veiled hidden a := by
  cases h with
  | numeric h => exact .numeric h.symm
  | categorical h => exact .categorical h.symm
  | datetime h => exact .datetime h.symm

theorem Cells.Veiled.trans {a b c : Cells α} (h : a.Veiled hidden b) (h' : b.Veiled hidden c) :
    a.Veiled hidden c := by
  cases h with
  | numeric h => cases h' with | numeric h' => exact .numeric (h.trans h')
  | categorical h => cases h' with | categorical h' => exact .categorical (h.trans h')
  | datetime h => cases h' with | datetime h' => exact .datetime (h.trans h')

theorem Cells.Veiled.length_eq {a b : Cells α} (h : a.Veiled hidden b) : b.length = a.length := by
  cases h with
  | numeric h => exact h.length
  | categorical h => exact h.length
  | datetime h => exact h.length

theorem Column.Veiled.refl (veil : String → Prop) (hidden : Nat → Prop) (c : Column α) :
    c.Veiled veil hidden c :=
  ⟨rfl, .refl hidden c.cells, fun _ => rfl⟩

theorem Column.Veiled.symm {c d : Column α} (h : c.Veiled veil hidden d) :
    d.Veiled veil hidden c :=
  ⟨h.name.symm, h.cells.symm, fun hd => (h.plain (h.name ▸ hd)).symm⟩

theorem Column.Veiled.trans {c d e : Column α} (h : c.Veiled veil hidden d)
    (h' : d.Veiled veil hidden e) : c.Veiled veil hidden e :=
  ⟨h'.name.trans h.name, h.cells.trans h'.cells,
    fun hc => (h'.plain (h.name.symm ▸ hc)).trans (h.plain hc)⟩

theorem Column.Veiled.eq {c d : Column α} (h : c.Veiled veil hidden d) (hc : ¬ veil c.name) :
    d = c := by
  obtain ⟨name, cells⟩ := c
  obtain ⟨name', cells'⟩ := d
  obtain rfl : name' = name := h.name
  obtain rfl : cells' = cells := h.plain hc
  rfl

theorem Column.Veiled.values {c d : Column α} (h : c.Veiled veil hidden d) :
    Agree (EqOff hidden) c.values d.values := by
  obtain ⟨name, cells⟩ := c
  obtain ⟨name', cells'⟩ := d
  obtain rfl : name' = name := h.name
  have hcells : cells.Veiled hidden cells' := h.cells
  cases hcells with
  | numeric hxy => exact .ok hxy
  | categorical => exact .error _
  | datetime => exact .error _

theorem veiled_columns_mono {veil' : String → Prop} {cs ds : List (Column α)}
    (h : List.Forall₂ (Column.Veiled veil hidden) cs ds)
    (hveil : ∀ c ∈ cs, veil c.name → veil' c.name) :
    List.Forall₂ (Column.Veiled veil' hidden) cs ds := by
  induction h with
  | nil => exact .nil
  | @cons c d cs ds hcd _ ih =>
    have hplain : ¬ veil' c.name → d.cells = c.cells :=
      fun hne => hcd.plain fun hv => hne (hveil c (by simp) hv)
    exact .cons ⟨hcd.name, hcd.cells, hplain⟩ (ih fun e he => hveil e (by simp [he]))

namespace Table.Veiled

variable {t t' t'' : Table α}

theorem refl (veil : String → Prop) (hidden : Nat → Prop) (t : Table α) : t.Veiled veil hidden t :=
  ⟨rfl, List.forall₂_same.2 fun c _ => .refl veil hidden c⟩

theorem symm (h : t.Veiled veil hidden t') : t'.Veiled veil hidden t :=
  ⟨h.rowCount.symm, h.columns.flip.imp fun _ _ hcd => hcd.symm⟩

theorem trans (h : t.Veiled veil hidden t') (h' : t'.Veiled veil hidden t'') :
    t.Veiled veil hidden t'' := by
  refine ⟨h'.rowCount.trans h.rowCount, ?_⟩
  have key : ∀ {cs ds es : List (Column α)}, List.Forall₂ (Column.Veiled veil hidden) cs ds →
      List.Forall₂ (Column.Veiled veil hidden) ds es →
      List.Forall₂ (Column.Veiled veil hidden) cs es := by
    intro cs ds es h h'
    induction h generalizing es with
    | nil => exact h'
    | cons hcd _ ih =>
      obtain ⟨e, es', hde, hrest, rfl⟩ := List.forall₂_cons_left_iff.1 h'
      exact .cons (hcd.trans hde) (ih hrest)
  exact key h.columns h'.columns

theorem names_eq (h : t.Veiled veil hidden t') : t'.names = t.names :=
  names_eq_of_forall₂ (fun _ _ hcd => hcd.name) h.columns

theorem column? (h : t.Veiled veil hidden t') (name : String) :
    Option.Rel (fun c d => c.name = name ∧ c.Veiled veil hidden d) (t.column? name)
      (t'.column? name) :=
  column?_rel_of_forall₂ (fun _ _ hcd => hcd.name) h.columns name

theorem column (h : t.Veiled veil hidden t') (name : String) :
    Agree (fun c d => c.name = name ∧ c.Veiled veil hidden d) (t.column name)
      (t'.column name) := by
  have hrel := h.column? name
  unfold Table.column
  generalize t.column? name = x, t'.column? name = y at hrel
  cases hrel with
  | none => exact .error _
  | some h => exact .ok h

theorem column?_plain (h : t.Veiled veil hidden t') {name : String} (hn : ¬ veil name) :
    t'.column? name = t.column? name := by
  have hrel := h.column? name
  generalize t.column? name = x, t'.column? name = y at hrel
  cases hrel with
  | none => rfl
  | some hcd => rw [hcd.2.eq (hcd.1 ▸ hn)]

theorem column_plain (h : t.Veiled veil hidden t') {name : String} (hn : ¬ veil name) :
    t'.column name = t.column name := by
  rw [Table.column, Table.column, h.column?_plain hn]

theorem numeric (h : t.Veiled veil hidden t') (name : String) :
    Agree (EqOff hidden) (t.numeric name) (t'.numeric name) := by
  refine (h.column name).bind fun c d _ _ hcd => ?_
  exact hcd.2.values

theorem place {cs ds : List (Column α)} (h : List.Forall₂ (Column.Veiled veil hidden) cs ds)
    {c d : Column α} (hcd : c.Veiled veil hidden d) :
    List.Forall₂ (Column.Veiled veil hidden) (Table.place c cs) (Table.place d ds) := by
  induction h with
  | nil => exact .cons hcd .nil
  | @cons a b cs ds hab hrest ih =>
    unfold Table.place
    rw [hab.name, hcd.name]
    split_ifs
    · exact .cons hcd hrest
    · exact .cons hab ih

theorem setColumn (h : t.Veiled veil hidden t') {c d : Column α} (hcd : c.Veiled veil hidden d) :
    Agree (Table.Veiled veil hidden) (t.setColumn c) (t'.setColumn d) := by
  have hlength : d.length = c.length := hcd.cells.length_eq
  have hempty : t'.columns.isEmpty = t.columns.isEmpty := by
    rw [Bool.eq_iff_iff, List.isEmpty_iff_length_eq_zero, List.isEmpty_iff_length_eq_zero,
      h.columns.length_eq]
  unfold Table.setColumn
  rw [hempty, hlength, h.rowCount]
  split_ifs
  · exact .ok ⟨rfl, .cons hcd .nil⟩
  · exact .ok ⟨rfl, place h.columns hcd⟩
  · exact .error _

theorem ofColumns {cs ds : List (Column α)}
    (h : List.Forall₂ (Column.Veiled veil hidden) cs ds) :
    Agree (Table.Veiled veil hidden) (Table.ofColumns cs) (Table.ofColumns ds) :=
  Agree.foldlM h (fun _ _ _ _ hcd hs => hs.setColumn hcd) ⟨rfl, .nil⟩

/-- Writing to a column, and to one with hidden places in a way that keeps what is shown alike. -/
theorem update (h : t.Veiled veil hidden t') {name : String}
    {f : List (Option α) → List (Option α)}
    (hf : veil name → ∀ xs ys, EqOff hidden xs ys → EqOff hidden (f xs) (f ys)) :
    Agree (Table.Veiled veil hidden) (t.update name f) (t'.update name f) := by
  have key : ∀ {cs ds : List (Column α)}, List.Forall₂ (Column.Veiled veil hidden) cs ds →
      Agree (List.Forall₂ (Column.Veiled veil hidden)) (updateFirst name f cs)
        (updateFirst name f ds) := by
    intro cs ds h
    induction h with
    | nil => exact .error _
    | @cons c d cs ds hcd hrest ih =>
      rw [updateFirst_cons, updateFirst_cons]
      by_cases hname : c.name = name
      · rw [if_pos hname, if_pos (hcd.name.trans hname)]
        by_cases hv : veil name
        · refine hcd.values.map fun xs ys hxy => ?_
          exact .cons ⟨hcd.name, .numeric (hf hv xs ys hxy), fun hc => absurd hv (hname ▸ hc)⟩ hrest
        · rw [hcd.eq (hname ▸ hv)]
          have hsame : Agree Eq c.values c.values := .of_eq (fun _ => rfl) rfl
          refine hsame.map fun xs ys hxy => ?_
          rw [hxy]
          exact .cons (.refl veil hidden _) hrest
      · rw [if_neg hname, if_neg (hcd.name ▸ hname)]
        exact ih.map fun _ _ hes => .cons hcd hes
  exact (key h.columns).map fun _ _ hes => ⟨h.rowCount, hes⟩

theorem update_plain (h : t.Veiled veil hidden t') {name : String} (hn : ¬ veil name)
    (f : List (Option α) → List (Option α)) :
    Agree (Table.Veiled veil hidden) (t.update name f) (t'.update name f) :=
  h.update fun hv => absurd hv hn

/-- Where whole columns are hidden, a write may do anything to them but change their length. -/
theorem update_whole (h : t.Veiled veil (fun _ => True) t') (name : String)
    {f : List (Option α) → List (Option α)} (hf : ∀ xs, (f xs).length = xs.length) :
    Agree (Table.Veiled veil fun _ => True) (t.update name f) (t'.update name f) :=
  h.update fun _ xs ys hxy => .of_length (by rw [hf, hf, hxy.length]) fun _ _ => trivial

theorem of_update {name : String} (hn : veil name) {f : List (Option α) → List (Option α)}
    (hf : ∀ xs, (f xs).length = xs.length) (h : t.update name f = .ok t') :
    t.Veiled veil (fun _ => True) t' := by
  obtain ⟨before, c, after, xs, heq, -, hc, hx, rfl⟩ := update_ok h
  have hcells : c.cells.Veiled (fun _ => True) (.numeric (f xs)) :=
    hx ▸ .numeric (.of_length (hf xs) fun _ _ => trivial)
  have hwritten : c.Veiled veil (fun _ => True) { c with cells := .numeric (f xs) } :=
    ⟨rfl, hcells, fun hplain => absurd hn (hc ▸ hplain)⟩
  refine ⟨rfl, ?_⟩
  rw [heq]
  exact List.rel_append (List.forall₂_same.2 fun d _ => .refl _ _ d)
    (.cons hwritten (List.forall₂_same.2 fun d _ => .refl _ _ d))

theorem mono {veil' : String → Prop} (h : t.Veiled veil hidden t')
    (hveil : ∀ name ∈ t.names, veil name → veil' name) : t.Veiled veil' hidden t' :=
  ⟨h.rowCount, veiled_columns_mono h.columns
    fun c hc => hveil c.name (List.mem_map_of_mem hc)⟩

theorem eq (h : t.Veiled veil hidden t') (hplain : ∀ name, ¬ veil name) : t' = t := by
  obtain ⟨columns, rows⟩ := t
  obtain ⟨columns', rows'⟩ := t'
  obtain rfl : rows' = rows := h.rowCount
  have hcolumns : List.Forall₂ Eq columns columns' :=
    h.columns.imp fun c d hcd => (hcd.eq (hplain c.name)).symm
  rw [List.forall₂_eq_eq_eq] at hcolumns
  rw [hcolumns]

end Table.Veiled

end Infill
