import Infill.Proofs.Table.SpreadVeil

/-! What belongs to one slice. Two long tables that differ in the rows of other slices are spread into
wide tables whose columns of that slice are the same, and wide tables with the same columns of one
slice are gathered into long tables with the same rows of it. -/

namespace Infill

variable {α : Type} [Scalar α]

open Calendar (DateTime)
open Table (column_ok_iff rectangular_numeric)

def Table.labelAt (t : Table α) (name : String) (row : Nat) : Option String :=
  (t.column? name).bind (·.cells.label? row)

def Table.rowsLabelled (t : Table α) (name label : String) : Table α :=
  t.takeRows ((List.range t.rowCount).filter fun row => t.labelAt name row = some label)

theorem Cells.label?_eq (cells : Cells α) (row : Nat) :
    cells.label? row = cells.labels[row]?.join := by
  cases cells with
  | numeric xs => cases h : xs[row]? <;> simp [label?, labels, h]
  | categorical xs => rfl
  | datetime xs => cases h : xs[row]? <;> simp [label?, labels, h]

/-- Places of which nothing is hidden read the same. -/
theorem EqOff.take {β : Type} {hidden : Nat → Prop} {xs ys : List (Option β)}
    (h : EqOff hidden xs ys) {rows : List Nat} (hrows : ∀ row ∈ rows, ¬ hidden row) :
    (rows.map fun i => ys[i]?.join) = rows.map fun i => xs[i]?.join := by
  refine List.map_congr_left fun i hi => ?_
  rw [h.shown i (hrows i hi)]

omit [Scalar α] in
theorem Cells.Veiled.take {hidden : Nat → Prop} {a b : Cells α} (h : a.Veiled hidden b)
    {rows : List Nat} (hrows : ∀ row ∈ rows, ¬ hidden row) : b.take rows = a.take rows := by
  cases h with
  | numeric h => rw [Cells.take, h.take hrows, Cells.take]
  | categorical h => rw [Cells.take, h.take hrows, Cells.take]
  | datetime h => rw [Cells.take, h.take hrows, Cells.take]

namespace Table.Veiled

variable {t t' : Table α} {veil : String → Prop} {hidden : Nat → Prop}

omit [Scalar α] in
theorem takeRows (h : t.Veiled veil hidden t') {rows : List Nat}
    (hrows : ∀ row ∈ rows, ¬ hidden row) : t'.takeRows rows = t.takeRows rows := by
  have key : ∀ {cs ds : List (Column α)}, List.Forall₂ (Column.Veiled veil hidden) cs ds →
      ds.map (fun c => { c with cells := c.cells.take rows }) =
        cs.map (fun c => { c with cells := c.cells.take rows }) := by
    intro cs ds h
    induction h with
    | nil => rfl
    | cons hcd _ ih => rw [List.map_cons, List.map_cons, ih, hcd.name, hcd.cells.take hrows]
  exact congrArg (Table.mk · rows.length) (key h.columns)

theorem rowsLabelled (h : t.Veiled veil hidden t') {name label : String} (hn : ¬ veil name)
    (hshown : ∀ row, t.labelAt name row = some label → ¬ hidden row) :
    t'.rowsLabelled name label = t.rowsLabelled name label := by
  have hlabel : ∀ row, t'.labelAt name row = t.labelAt name row := by
    intro row
    rw [labelAt, h.column?_plain hn, labelAt]
  unfold Table.rowsLabelled
  simp only [hlabel, h.rowCount]
  refine h.takeRows fun row hrow => hshown row ?_
  simpa using (List.mem_filter.1 hrow).2

end Table.Veiled

namespace Pivot

/-- The columns of a wide table that show neither its dates nor the slice. -/
def OtherSlice (separator : Char) (date slice name : String) : Prop :=
  SeriesName.slice? separator name ≠ some slice ∧ name ≠ date

abbrev SameSlice (separator : Char) (date slice : String) (w w' : Table α) : Prop :=
  w.Veiled (OtherSlice separator date slice) (fun _ => True) w'

/-- Two long tables with the same dates and keys that show the same in the rows of one key. -/
abbrev SameRows (date key slice : String) (t t' : Table α) : Prop :=
  t.Veiled (fun name => name ≠ date ∧ name ≠ key) (fun row => t.labelAt key row ≠ some slice) t'

omit [Scalar α] in
/-- The frame of a series is made of columns of its slice. -/
theorem sliceFrame_sameSlice {separator : Char} {date slice series : String} {w w' : Table α}
    (hseries : SeriesName.slice? separator series = some slice)
    (h : SameSlice separator date slice w w') :
    SeriesName.sliceFrame separator w' date series =
      SeriesName.sliceFrame separator w date series := by
  have hplain : ∀ name, SeriesName.slice? separator name = some slice →
      w'.column name = w.column name :=
    fun name hname => h.column_plain fun hother => hother.1 hname
  have hselect : ∀ names : List String,
      (∀ name ∈ names, SeriesName.slice? separator name = some slice) →
      w'.select (date :: names) = w.select (date :: names) := by
    intro names hnames
    rw [Table.select, Table.select, mapM_congr fun name hname => ?_]
    rcases List.mem_cons.1 hname with rfl | hname
    · exact h.column_plain (by simp [OtherSlice])
    · exact hplain name (hnames name hname)
  unfold SeriesName.sliceFrame
  rw [hplain series hseries, h.names_eq, hseries]
  dsimp only
  rw [hselect _ fun name hname => by simpa using (List.mem_filter.1 hname).2]

section Spread

variable {p : Pivot} {key slice : String} {t t' : Table α}

omit [Scalar α] in
theorem otherSlice_compose (hd : p.separator ∉ p.date.toList) {measure : String}
    (hm : p.separator ∉ measure.toList) {other : String} :
    OtherSlice p.separator p.date slice (SeriesName.compose p.separator measure other) ↔
      other ≠ slice := by
  have hs : SeriesName.slice? p.separator (SeriesName.compose p.separator measure other) =
      some other := by
    rw [SeriesName.slice?, SeriesName.decompose?_compose hm]
    rfl
  have hne : SeriesName.compose p.separator measure other ≠ p.date := by
    intro heq
    rw [heq, SeriesName.slice?, SeriesName.decompose?_none hd] at hs
    simp at hs
  simp [OtherSlice, hs, hne]

/-- The series of one slice is made of the rows of that slice. -/
theorem seriesOf_sameSlice (hd : p.separator ∉ p.date.toList) {measure : String}
    (hm : p.separator ∉ measure.toList) {slices : List (Option String)} {xs ys : List (Option α)}
    (h : EqOff (fun i => slices[i]? ≠ some (some slice)) xs ys) (times : List (Option DateTime)) :
    List.Forall₂ (Column.Veiled (OtherSlice p.separator p.date slice) fun _ => True)
      (p.seriesOf times slices measure xs) (p.seriesOf times slices measure ys) := by
  unfold seriesOf
  rw [List.forall₂_map_left_iff, List.forall₂_map_right_iff, List.forall₂_same]
  intro other _
  refine ⟨rfl, .numeric (.of_length (by simp) fun _ _ => trivial), fun hplain => ?_⟩
  obtain rfl : other = slice := by simpa [otherSlice_compose hd hm] using hplain
  have hsame := entries_filter_congr (fun _ s => s = other) slices h.length
    fun i _ s (_ : times[i]? = _) hi hs => h.shown i (by simpa [of_decide_eq_true hs] using hi)
  rw [hsame]

theorem slicedColumns_sameSlice (hd : p.separator ∉ p.date.toList)
    (hm : ∀ m ∈ p.spreadMeasures t, p.separator ∉ m.toList)
    (h : SameRows p.date key slice t t') (date : Column α) :
    Agree (List.Forall₂ (Column.Veiled (OtherSlice p.separator p.date slice) fun _ => True))
      (p.slicedColumns t key date) (p.slicedColumns t' key date) := by
  rw [slicedColumns_eq, slicedColumns_eq, h.column_plain (by simp), spreadMeasures_veiled h]
  refine Agree.bind_same fun times _ => ?_
  refine Agree.bind_same fun keys hkeys => ?_
  have hlabel : ∀ row, t.labelAt key row ≠ some slice ↔
      keys.cells.labels[row]? ≠ some (some slice) := by
    intro row
    rw [Table.labelAt, column_ok_iff.1 hkeys, Option.bind_some, Cells.label?_eq, ne_eq,
      Option.join_eq_some_iff]
  have heach : ∀ m ∈ p.spreadMeasures t, Agree
      (List.Forall₂ (Column.Veiled (OtherSlice p.separator p.date slice) fun _ => True))
      ((t.numeric m).map (p.seriesOf times keys.cells.labels m))
      ((t'.numeric m).map (p.seriesOf times keys.cells.labels m)) := by
    intro m hmem
    refine (h.numeric m).map fun xs ys hxy => ?_
    simp only [hlabel] at hxy
    exact seriesOf_sameSlice hd (hm m hmem) hxy times
  refine (Agree.mapM heach).bind fun series series' _ _ hseries => ?_
  exact .ok (.cons (.refl _ _ _) (List.rel_flatten hseries))

theorem closedIf_sameSlice (h : SameSlice p.separator p.date slice t t') :
    Agree (SameSlice p.separator p.date slice) (p.closedIf t) (p.closedIf t') := by
  unfold closedIf closeCovariates
  rw [h.names_eq]
  split_ifs
  · refine Agree.foldlM (List.forall₂_same.2 fun _ _ => rfl) ?_ h
    rintro s s' name _ rfl hs
    exact hs.update_whole name Carry.length_fill
  · exact .ok h

/-- Only the columns of other slices are touched by the rows of other slices. -/
theorem spread_sameSlice (hp : p.slice = some key) (hd : p.separator ∉ p.date.toList)
    (hm : ∀ m ∈ p.spreadMeasures t, p.separator ∉ m.toList)
    (h : SameRows p.date key slice t t') :
    Agree (SameSlice p.separator p.date slice) (p.spread t) (p.spread t') := by
  rw [spread_eq, spread_eq, h.column_plain (by simp)]
  refine Agree.bind_same fun date _ => ?_
  have hcolumns : Agree
      (List.Forall₂ (Column.Veiled (OtherSlice p.separator p.date slice) fun _ => True))
      (p.columnsFor t date) (p.columnsFor t' date) := by
    rw [columnsFor, columnsFor, hp]
    exact slicedColumns_sameSlice hd hm h date
  refine hcolumns.bind fun columns columns' _ _ hcd => ?_
  refine (Table.Veiled.ofColumns hcd).bind fun wide wide' _ _ hw => ?_
  exact closedIf_sameSlice hw

end Spread

section Gather

variable {separator : Char} {date key slice target : String} {w w' : Table α}

omit [Scalar α] in
/-- The gathered values of one slice come from its columns. -/
theorem gathered_sameSlice (hw : w.Rectangular)
    (h : SameSlice separator date slice w w') {series : List String}
    (hseries : ∀ name ∈ series, ∃ s, SeriesName.slice? separator name = some s)
    {values values' : List (List (Option α))} (hv : series.mapM w.numeric = .ok values)
    (hv' : series.mapM w'.numeric = .ok values') :
    EqOff (fun i => (gatheredLabels separator w.rowCount series)[i]? ≠ some (some slice))
      values.flatten values'.flatten := by
  induction series generalizing values values' with
  | nil =>
    obtain rfl := pure_ok_iff.1 hv
    obtain rfl := pure_ok_iff.1 hv'
    exact .refl _ _
  | cons name series ih =>
    obtain ⟨xs, values, hxs, hrest, rfl⟩ := List.forall₂_cons_left_iff.1 (mapM_ok_iff.1 hv)
    obtain ⟨ys, values', hys, hrest', rfl⟩ := List.forall₂_cons_left_iff.1 (mapM_ok_iff.1 hv')
    obtain ⟨other, hother⟩ := hseries name (by simp)
    have hrows := rectangular_numeric hw hxs
    have hlater := ih (fun n hn => hseries n (by simp [hn])) (mapM_ok_iff.2 hrest)
      (mapM_ok_iff.2 hrest')
    have hlabels : gatheredLabels separator w.rowCount (name :: series) =
        List.replicate w.rowCount (some other) ++ gatheredLabels separator w.rowCount series := by
      simp [gatheredLabels, hother]
    rw [List.flatten_cons, List.flatten_cons, hlabels]
    refine .append ?_ (by simpa [hrows, List.getElem?_append_right] using hlater)
    by_cases hs : other = slice
    · have hplain : ¬ OtherSlice separator date slice name := fun hn => hn.1 (hs ▸ hother)
      rw [Table.numeric, h.column_plain hplain] at hys
      obtain rfl := Except.ok.inj (hxs.symm.trans hys)
      exact .refl _ _
    · refine .of_length ((h.numeric name).results hxs hys).length fun i hi => ?_
      rw [List.getElem?_append_left (by simpa [hrows] using hi)]
      simpa [hrows ▸ hi] using hs

theorem gather_sameSlice (hkey : key ≠ target) (hw : w.Rectangular)
    (h : SameSlice separator date slice w w') {long long' : Table α}
    (hlong : gather separator w date (some key) target = .ok long)
    (hlong' : gather separator w' date (some key) target = .ok long') :
    long'.rowsLabelled key slice = long.rowsLabelled key slice := by
  have hseries : SeriesName.ofMeasure separator w' target =
      SeriesName.ofMeasure separator w target :=
    SeriesName.ofMeasure_congr h.names_eq _ _
  obtain ⟨dates, hdates, -, values, hvalues, labelled, hlabelled, hset⟩ := gather_ok_iff.1 hlong
  obtain ⟨dates', hdates', -, values', hvalues', labelled', hlabelled', hset'⟩ :=
    gather_ok_iff.1 hlong'
  rw [h.column?_plain (by simp [OtherSlice])] at hdates'
  obtain rfl := Option.some.inj (hdates.symm.trans hdates')
  rw [hseries, h.rowCount] at hlabelled'
  obtain rfl := Except.ok.inj (hlabelled.symm.trans hlabelled')
  rw [hseries] at hvalues'
  have hoff := gathered_sameSlice hw h (fun _ => SeriesName.slice?_of_mem_ofMeasure) hvalues
    hvalues'
  have htarget : Column.Veiled (· = target)
      (fun i => (gatheredLabels separator w.rowCount
        (SeriesName.ofMeasure separator w target))[i]? ≠ some (some slice))
      (⟨target, .numeric values.flatten⟩ : Column α) ⟨target, .numeric values'.flatten⟩ :=
    ⟨rfl, .numeric hoff, fun hplain => absurd rfl hplain⟩
  have hveiled := ((Table.Veiled.refl _ _ labelled).setColumn htarget).results hset hset'
  refine hveiled.rowsLabelled hkey fun row hrow => ?_
  rw [Table.labelAt, Table.setColumn_column? hset, if_neg hkey, Table.setColumn_column? hlabelled,
    if_pos rfl, Option.bind_some, Cells.label?_eq, Option.join_eq_some_iff] at hrow
  exact not_not.2 hrow

end Gather

end Pivot

end Infill
