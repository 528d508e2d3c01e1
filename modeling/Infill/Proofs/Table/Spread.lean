import Mathlib.Data.String.Basic
import Infill.Proofs.Table.Axis
import Infill.Proofs.Table.Filling
import Infill.Proofs.Table.SeriesName
import Infill.Table.Pivot

/-! Spreading a table by date gives a wide table: one date column, and columns of numbers under
composed names. Every row of the long table can be spread whose measures are numbers, and the series
of a measure of a wide table can be gathered again, whatever has been filled or blanked since. -/

namespace Infill

variable {α : Type}

open Table

namespace Carry

theorem length_forward [Scalar α] (last : Option α) (cells : List (Option α)) :
    (forward last cells).length = cells.length := by
  induction cells generalizing last with
  | nil => rfl
  | cons cell rest ih => simp [forward, ih]

theorem length_backward (cells : List (Option α)) : (backward cells).length = cells.length := by
  induction cells with
  | nil => rfl
  | cons cell rest ih => simp [backward, ih]

theorem length_fill [Scalar α] (cells : List (Option α)) : (fill cells).length = cells.length := by
  rw [fill, length_backward, length_forward]

end Carry

structure Table.Wide (date : String) (t : Table α) : Prop where
  wellFormed : t.WellFormed
  dated : date ∈ t.names
  numeric : ∀ name ∈ t.names, name ≠ date → ∃ xs, t.numeric name = .ok xs

namespace Table.Wide

variable {date : String} {t t' : Table α}

theorem update (h : t.Wide date) {name : String} {f : List (Option α) → List (Option α)}
    (hf : ∀ xs, (f xs).length = xs.length) (hu : t.update name f = .ok t') : t'.Wide date := by
  have hnames := update_names hu
  refine ⟨⟨hnames ▸ h.wellFormed.nodup, rectangular_update hf h.wellFormed.rectangular hu⟩,
    hnames ▸ h.dated, fun other hother hne => ?_⟩
  exact update_numeric_total hu (h.numeric other (hnames ▸ hother) hne)

theorem update_total (h : t.Wide date) {name : String} (hmem : name ∈ t.names) (hne : name ≠ date)
    {f : List (Option α) → List (Option α)} (hf : ∀ xs, (f xs).length = xs.length) :
    ∃ t', t.update name f = .ok t' ∧ t'.Wide date ∧ t'.names = t.names := by
  obtain ⟨xs, hx⟩ := h.numeric name hmem hne
  obtain ⟨t', ht'⟩ := Table.update_total hx f
  exact ⟨t', ht', h.update hf ht', update_names ht'⟩

/-- A series of a measure is not the date column, the name of which holds no separator. -/
theorem series_ne_date {separator : Char} (hd : separator ∉ date.toList) {measure name : String}
    (h : name ∈ SeriesName.ofMeasure separator t measure) : name ≠ date := by
  rintro rfl
  obtain ⟨-, slice, hs⟩ := SeriesName.mem_ofMeasure.1 h
  rw [SeriesName.decompose?_none hd] at hs
  exact absurd hs (by simp)

theorem series_numeric {separator : Char} (h : t.Wide date) (hd : separator ∉ date.toList)
    (measure : String) :
    ∀ name ∈ SeriesName.ofMeasure separator t measure, ∃ xs, t.numeric name = .ok xs :=
  fun name hname =>
    h.numeric name (SeriesName.mem_ofMeasure.1 hname).1 (series_ne_date hd hname)

variable [Scalar α]

theorem fills (h : t.Wide date) {writable : String → Prop} (hf : t.Fills writable t') :
    t'.Wide date := by
  have hnames := hf.names_eq
  refine ⟨⟨hnames ▸ h.wellFormed.nodup, hf.rectangular h.wellFormed.rectangular⟩,
    hnames ▸ h.dated, fun name hname hne => ?_⟩
  obtain ⟨c, hc⟩ := exists_column hname
  obtain ⟨b, hb, hbc⟩ := hf.column? hc
  obtain ⟨xs, hx⟩ := h.numeric name (hnames ▸ hname) hne
  obtain ⟨b', hb', hcells⟩ := numeric_ok_iff.1 hx
  obtain rfl := Option.some.inj (hb.symm.trans hb')
  have hfill := hbc.cells
  rw [hcells] at hfill
  generalize hys : c.cells = ys at hfill
  cases hfill with
  | same => exact ⟨xs, numeric_ok_iff.2 ⟨c, hc, hys⟩⟩
  | @numeric _ ys _ _ => exact ⟨ys, numeric_ok_iff.2 ⟨c, hc, hys⟩⟩

end Table.Wide

namespace Pivot

variable [Scalar α]

omit [Scalar α] in
theorem isNumeric_iff {t : Table α} {name : String} :
    isNumeric t name = true ↔ ∃ xs, t.numeric name = .ok xs := by
  simp only [numeric_ok_iff]
  unfold isNumeric
  rcases t.column? name with - | ⟨other, cells⟩
  · simp
  · cases cells <;> simp

omit [Scalar α] in
theorem mem_spreadMeasures {p : Pivot} {t : Table α} {name : String} :
    name ∈ p.spreadMeasures t ↔ name ∈ p.measures.getD t.names ∧ name ≠ p.date ∧
      some name ≠ p.slice ∧ name ≠ "index" ∧ ∃ xs, t.numeric name = .ok xs := by
  simp only [spreadMeasures, List.mem_filter, Bool.and_eq_true, decide_eq_true_eq, isNumeric_iff]
  tauto

def sliceValues (p : Pivot) (t : Table α) : List String :=
  match p.slice with
  | none => [SeriesName.whole]
  | some slice =>
    match t.column? slice with
    | some c => c.cells.labels.filterMap id
    | none => []

structure Spreads (p : Pivot) (t : Table α) (columns : List (Column α)) : Prop where
  length : ∃ rows, ∀ c ∈ columns, c.length = rows
  date : p.date ∈ columns.map (·.name)
  numeric : ∀ c ∈ columns, c.name ≠ p.date → ∃ xs, c.cells = .numeric xs
  series : ∀ m ∈ p.spreadMeasures t, ∀ s ∈ p.sliceValues t,
    SeriesName.compose p.separator m s ∈ columns.map (·.name)

theorem Spreads.of_series {p : Pivot} {t : Table α} {date : Column α} {series : List (Column α)}
    (hname : date.name = p.date)
    (hcols : ∀ c ∈ series, c.length = date.length ∧ ∃ xs, c.cells = .numeric xs)
    (hseries : ∀ m ∈ p.spreadMeasures t, ∀ s ∈ p.sliceValues t,
      ∃ c ∈ series, c.name = SeriesName.compose p.separator m s) :
    p.Spreads t (date :: series) where
  length := ⟨date.length, by simpa using fun c hc => (hcols c hc).1⟩
  date := by simp [hname]
  numeric := by
    intro c hc hne
    rcases List.mem_cons.1 hc with rfl | hc
    · exact absurd hname hne
    · exact (hcols c hc).2
  series := by
    intro m hm s hs
    obtain ⟨c, hc, heq⟩ := hseries m hm s hs
    exact heq ▸ List.mem_map_of_mem (List.mem_cons_of_mem _ hc)

theorem wholeColumns_total {p : Pivot} (hp : p.slice = none) {t : Table α} (ht : t.Rectangular)
    {date : Column α} (hdate : t.column? p.date = some date) :
    ∃ columns, p.wholeColumns t date = .ok columns ∧ p.Spreads t columns := by
  obtain ⟨hmem, hname⟩ := column?_some hdate
  obtain ⟨series, hs⟩ : ∃ series, (p.spreadMeasures t).mapM (fun m => do
      return Column.mk (SeriesName.compose p.separator m SeriesName.whole)
        (.numeric (← t.numeric m)) : String → Except Error (Column α)) = .ok series := by
    refine mapM_total fun m hm => ?_
    obtain ⟨-, -, -, -, xs, hx⟩ := mem_spreadMeasures.1 hm
    exact ⟨_, by rw [hx]; rfl⟩
  refine ⟨date :: series, by rw [wholeColumns, hs]; rfl, .of_series hname ?_ ?_⟩
  · intro c hc
    obtain ⟨m, -, h⟩ := forall₂_mem_right (mapM_ok_iff.1 hs) hc
    simp only [bind_ok_iff, pure_ok_iff] at h
    obtain ⟨xs, hx, rfl⟩ := h
    exact ⟨(rectangular_numeric ht hx).trans (ht date hmem).symm, xs, rfl⟩
  · intro m hm s hslice
    obtain ⟨c, hc, h⟩ := forall₂_mem_left (mapM_ok_iff.1 hs) hm
    simp only [bind_ok_iff, pure_ok_iff] at h
    obtain ⟨xs, -, rfl⟩ := h
    simp only [sliceValues, hp, List.mem_singleton] at hslice
    exact ⟨_, hc, by rw [hslice]⟩

def timeAxis (times : List (Option Calendar.DateTime)) : List Calendar.DateTime :=
  Axis.ascending Calendar.DateTime.before (times.filterMap id)

def sliceAxis (slices : List (Option String)) : List String :=
  Axis.ascending (fun a b => decide (a < b)) (slices.filterMap id)

theorem mem_timeAxis {times : List (Option Calendar.DateTime)} {d : Calendar.DateTime} :
    d ∈ timeAxis times ↔ some d ∈ times := by
  simp [timeAxis, Axis.mem_ascending]

theorem mem_sliceAxis {slices : List (Option String)} {s : String} :
    s ∈ sliceAxis slices ↔ some s ∈ slices := by
  simp [sliceAxis, Axis.mem_ascending]

theorem timeAxis_ascending (times : List (Option Calendar.DateTime)) :
    (timeAxis times).Pairwise (·.before ·) :=
  Axis.pairwise_ascending Calendar.DateTime.before_strict _

theorem sliceAxis_ascending (slices : List (Option String)) :
    (sliceAxis slices).Pairwise (· < ·) :=
  (Axis.pairwise_ascending Axis.strict_lt _).imp of_decide_eq_true

theorem timeAxis_nodup (times : List (Option Calendar.DateTime)) : (timeAxis times).Nodup :=
  Axis.nodup_ascending Calendar.DateTime.before_strict _

theorem sliceAxis_nodup (slices : List (Option String)) : (sliceAxis slices).Nodup :=
  Axis.nodup_ascending Axis.strict_lt _

def seriesOf (p : Pivot) (times : List (Option Calendar.DateTime)) (slices : List (Option String))
    (measure : String) (values : List (Option α)) : List (Column α) :=
  (sliceAxis slices).map fun slice =>
    ⟨SeriesName.compose p.separator measure slice,
      .numeric ((timeAxis times).map
        (average? ((entries times slices values).filter (·.slice = slice))))⟩

theorem slicedColumns_eq (p : Pivot) (t : Table α) (slice : String) (date : Column α) :
    p.slicedColumns t slice date = date.times >>= fun times => t.column slice >>= fun keys =>
      (p.spreadMeasures t).mapM (fun m => (t.numeric m).map (p.seriesOf times keys.cells.labels m))
        >>= fun series => .ok (⟨p.date, .datetime ((timeAxis times).map some)⟩ :: series.flatten) :=
  rfl

theorem slicedColumns_total {p : Pivot} {slice : String} (hp : p.slice = some slice) {t : Table α}
    {keys : Column α} (hslice : t.column? slice = some keys) {date : Column α}
    {times : List (Option Calendar.DateTime)} (htimes : date.cells = .datetime times) :
    ∃ columns, p.slicedColumns t slice date = .ok columns ∧ p.Spreads t columns := by
  obtain ⟨series, hs⟩ : ∃ series, (p.spreadMeasures t).mapM (fun m =>
      (t.numeric m).map (p.seriesOf times keys.cells.labels m)) = .ok series := by
    refine mapM_total fun m hm => ?_
    obtain ⟨-, -, -, -, xs, hx⟩ := mem_spreadMeasures.1 hm
    exact ⟨_, map_ok_iff.2 ⟨xs, hx, rfl⟩⟩
  refine ⟨⟨p.date, .datetime ((timeAxis times).map some)⟩ :: series.flatten, ?_,
    .of_series rfl ?_ ?_⟩
  · simp only [slicedColumns_eq, bind_ok_iff, times_ok_iff, column_ok_iff]
    exact ⟨times, htimes, keys, hslice, series, hs, rfl⟩
  · intro c hc
    obtain ⟨group, hgroup, hc⟩ := List.mem_flatten.1 hc
    obtain ⟨m, -, h⟩ := forall₂_mem_right (mapM_ok_iff.1 hs) hgroup
    obtain ⟨xs, -, rfl⟩ := map_ok_iff.1 h
    obtain ⟨s, -, rfl⟩ := List.mem_map.1 hc
    exact ⟨by simp [Column.length, Cells.length], _, rfl⟩
  · intro m hm s hslices
    obtain ⟨group, hgroup, h⟩ := forall₂_mem_left (mapM_ok_iff.1 hs) hm
    obtain ⟨xs, -, rfl⟩ := map_ok_iff.1 h
    simp only [sliceValues, hp, hslice] at hslices
    have haxis : s ∈ sliceAxis keys.cells.labels := Axis.mem_ascending.2 hslices
    exact ⟨_, List.mem_flatten.2 ⟨_, hgroup, List.mem_map_of_mem haxis⟩, rfl⟩

structure Fits (p : Pivot) (t : Table α) : Prop where
  rectangular : t.Rectangular
  times : ∃ c ts, t.column? p.date = some c ∧ c.cells = .datetime ts
  slice : ∀ slice, p.slice = some slice → ∃ c, t.column? slice = some c

def columnsFor (p : Pivot) (t : Table α) (date : Column α) : Except Error (List (Column α)) :=
  match p.slice with
  | none => p.wholeColumns t date
  | some slice => p.slicedColumns t slice date

def closedIf (p : Pivot) (wide : Table α) : Except Error (Table α) :=
  if p.fillCovariates then p.closeCovariates wide else return wide

theorem spread_eq (p : Pivot) (t : Table α) :
    p.spread t = t.column p.date >>= fun date => p.columnsFor t date >>= fun columns =>
      ofColumns columns >>= p.closedIf := by
  unfold spread columnsFor
  cases p.slice <;> rfl

theorem columns_total {p : Pivot} {t : Table α} (h : p.Fits t) {date : Column α}
    (hdate : t.column? p.date = some date) :
    ∃ columns, p.columnsFor t date = .ok columns ∧ p.Spreads t columns := by
  unfold columnsFor
  cases hp : p.slice with
  | none => exact wholeColumns_total hp h.rectangular hdate
  | some slice =>
    obtain ⟨keys, hkeys⟩ := h.slice slice hp
    obtain ⟨c, times, hc, htimes⟩ := h.times
    obtain rfl := Option.some.inj (hdate.symm.trans hc)
    exact slicedColumns_total hp hkeys htimes

theorem Spreads.ofColumns {p : Pivot} {t : Table α} {columns : List (Column α)}
    (h : p.Spreads t columns) : ∃ wide, Table.ofColumns columns = .ok wide ∧ wide.Wide p.date ∧
      ∀ m ∈ p.spreadMeasures t, ∀ s ∈ p.sliceValues t,
        SeriesName.compose p.separator m s ∈ wide.names := by
  obtain ⟨rows, hrows⟩ := h.length
  obtain ⟨wide, hwide⟩ := ofColumns_total hrows
  refine ⟨wide, hwide, ⟨wellFormed_ofColumns hwide, (ofColumns_names hwide).2 h.date, ?_⟩,
    fun m hm s hs => (ofColumns_names hwide).2 (h.series m hm s hs)⟩
  intro name hname hne
  obtain ⟨c, hc⟩ := exists_column hname
  obtain ⟨hmem, rfl⟩ := column?_some hc
  obtain ⟨xs, hx⟩ := h.numeric c (mem_ofColumns hwide hmem) hne
  exact ⟨xs, numeric_ok_iff.2 ⟨c, hc, hx⟩⟩

theorem closeCovariates_total {p : Pivot} {wide : Table α} (hw : wide.Wide p.date) :
    ∃ closed, p.closeCovariates wide = .ok closed ∧ closed.Wide p.date ∧
      closed.names = wide.names := by
  refine foldlM_total (fun s : Table α => s.Wide p.date ∧ s.names = wide.names) ?_ ⟨hw, rfl⟩
  rintro s name hname ⟨hs, hnames⟩
  obtain ⟨hmem, hcov⟩ := List.mem_filter.1 hname
  have hne : name ≠ p.date := by
    simp only [Bool.and_eq_true, decide_eq_true_eq] at hcov
    exact hcov.1
  obtain ⟨s', hs', hwide, heq⟩ := hs.update_total (hnames ▸ hmem) hne Carry.length_fill
  exact ⟨s', hs', hwide, heq.trans hnames⟩

theorem closedIf_total {p : Pivot} {wide : Table α} (hw : wide.Wide p.date) :
    ∃ closed, p.closedIf wide = .ok closed ∧ closed.Wide p.date ∧ closed.names = wide.names := by
  unfold closedIf
  split_ifs
  · exact closeCovariates_total hw
  · exact ⟨wide, rfl, hw, rfl⟩

theorem spread_total {p : Pivot} {t : Table α} (h : p.Fits t) :
    ∃ wide, p.spread t = .ok wide ∧ wide.Wide p.date ∧
      ∀ m ∈ p.spreadMeasures t, ∀ s ∈ p.sliceValues t,
        SeriesName.compose p.separator m s ∈ wide.names := by
  obtain ⟨date, ts, hdate, -⟩ := h.times
  obtain ⟨columns, hcolumns, hspreads⟩ := columns_total h hdate
  obtain ⟨wide, hofColumns, hwide, hseries⟩ := hspreads.ofColumns
  obtain ⟨closed, hclosed, hclosedWide, hnames⟩ := closedIf_total hwide
  refine ⟨closed, ?_, hclosedWide, fun m hm s hs => hnames ▸ hseries m hm s hs⟩
  simp only [spread_eq, bind_ok_iff, column_ok_iff]
  exact ⟨date, hdate, columns, hcolumns, wide, hofColumns, hclosed⟩

theorem closedIf_keeps {p : Pivot} {wide closed : Table α} (hw : wide.WellFormed)
    (h : p.closedIf wide = .ok closed) :
    closed.WellFormed ∧ closed.rowCount = wide.rowCount ∧ closed.names = wide.names := by
  unfold closedIf at h
  split_ifs at h
  · refine foldlM_keeps (fun s : Table α =>
      s.WellFormed ∧ s.rowCount = wide.rowCount ∧ s.names = wide.names) ?_ ⟨hw, rfl, rfl⟩ h
    rintro s name - ⟨hs, hrows, hnames⟩ s' hs'
    exact ⟨⟨update_names hs' ▸ hs.nodup, rectangular_update Carry.length_fill hs.rectangular hs'⟩,
      (update_rowCount hs').trans hrows, (update_names hs').trans hnames⟩
  · obtain rfl := pure_ok_iff.1 h
    exact ⟨hw, rfl, rfl⟩

theorem spread_sliced_ok {p : Pivot} {slice : String} (hp : p.slice = some slice)
    {t wide : Table α} (h : p.spread t = .ok wide) : ∃ date times keys series start,
      t.column? p.date = some date ∧ date.cells = .datetime times ∧ t.column? slice = some keys ∧
      (p.spreadMeasures t).mapM (fun m => (t.numeric m).map (p.seriesOf times keys.cells.labels m)) =
        .ok series ∧
      Table.ofColumns (⟨p.date, .datetime ((timeAxis times).map some)⟩ :: series.flatten) =
        .ok start ∧
      p.closedIf start = .ok wide := by
  simp only [spread_eq, bind_ok_iff, column_ok_iff] at h
  obtain ⟨date, hdate, columns, hcolumns, start, hstart, hclosed⟩ := h
  rw [columnsFor, hp] at hcolumns
  simp only [slicedColumns_eq, bind_ok_iff, times_ok_iff, column_ok_iff, Except.ok.injEq]
    at hcolumns
  obtain ⟨times, htimes, keys, hkeys, series, hseries, rfl⟩ := hcolumns
  exact ⟨date, times, keys, series, start, hdate, htimes, hkeys, hseries, hstart, hclosed⟩

/-- A sliced table has one row for every date. -/
theorem spread_shape {p : Pivot} {slice : String} (hp : p.slice = some slice) {t wide : Table α}
    {date : Column α} (hdate : t.column? p.date = some date)
    {times : List (Option Calendar.DateTime)} (htimes : date.cells = .datetime times)
    (h : p.spread t = .ok wide) :
    wide.WellFormed ∧ wide.rowCount = (timeAxis times).length := by
  obtain ⟨date', times', keys, series, start, hdate', htimes', -, -, hstart, hclosed⟩ :=
    spread_sliced_ok hp h
  obtain rfl := Option.some.inj (hdate.symm.trans hdate')
  obtain rfl := Cells.datetime.inj (htimes.symm.trans htimes')
  obtain ⟨hwf, hrows, -⟩ := closedIf_keeps (wellFormed_ofColumns hstart) hclosed
  refine ⟨hwf, hrows.trans ((ofColumns_rowCount hstart).trans ?_)⟩
  simp [Column.length, Cells.length]

/-- The columns that are spread are the dates, and numbers under composed names. -/
theorem columnsFor_ok {p : Pivot} {t : Table α} {date : Column α} (hdate : t.column? p.date = some date)
    {columns : List (Column α)} (h : p.columnsFor t date = .ok columns) :
    ∃ dates series, columns = dates :: series ∧ dates.name = p.date ∧
      ∀ c ∈ series, (∃ xs, c.cells = .numeric xs) ∧
        ∃ m ∈ p.spreadMeasures t, ∃ s, c.name = SeriesName.compose p.separator m s := by
  unfold columnsFor at h
  cases hslice : p.slice with
  | none =>
    rw [hslice] at h
    simp only [wholeColumns, bind_ok_iff, pure_ok_iff] at h
    obtain ⟨series, hseries, rfl⟩ := h
    refine ⟨date, series, rfl, (column?_some hdate).2, fun c hc => ?_⟩
    obtain ⟨m, hm, hread⟩ := forall₂_mem_right (mapM_ok_iff.1 hseries) hc
    simp only [bind_ok_iff, pure_ok_iff] at hread
    obtain ⟨xs, -, rfl⟩ := hread
    exact ⟨⟨xs, rfl⟩, m, hm, SeriesName.whole, rfl⟩
  | some slice =>
    rw [hslice] at h
    simp only [slicedColumns_eq, bind_ok_iff, Except.ok.injEq] at h
    obtain ⟨times, -, keys, -, series, hseries, rfl⟩ := h
    refine ⟨_, series.flatten, rfl, rfl, fun c hc => ?_⟩
    obtain ⟨group, hgroup, hc⟩ := List.mem_flatten.1 hc
    obtain ⟨m, hm, hgroup⟩ := forall₂_mem_right (mapM_ok_iff.1 hseries) hgroup
    obtain ⟨xs, -, rfl⟩ := map_ok_iff.1 hgroup
    obtain ⟨s, -, rfl⟩ := List.mem_map.1 hc
    exact ⟨⟨_, rfl⟩, m, hm, s, rfl⟩

/-- The columns of a spread table are its dates and the series of its measures. -/
theorem spread_wide {p : Pivot} {t wide : Table α} (h : p.spread t = .ok wide) :
    wide.Wide p.date ∧ ∀ name ∈ wide.names, name ≠ p.date →
      ∃ m ∈ p.spreadMeasures t, ∃ s, name = SeriesName.compose p.separator m s := by
  simp only [spread_eq, bind_ok_iff, column_ok_iff] at h
  obtain ⟨date, hdate, columns, hcolumns, start, hstart, hclosed⟩ := h
  obtain ⟨dates, series, rfl, hdates, hseries⟩ := columnsFor_ok hdate hcolumns
  have hplaced : ∀ name ∈ start.names, name ≠ p.date →
      ∃ c ∈ series, start.column? name = some c := by
    intro name hname hne
    obtain ⟨c, hc⟩ := exists_column hname
    obtain ⟨hmem, rfl⟩ := column?_some hc
    rcases List.mem_cons.1 (mem_ofColumns hstart hmem) with rfl | hmem
    · exact absurd hdates hne
    · exact ⟨c, hmem, hc⟩
  have hwide : start.Wide p.date := by
    refine ⟨wellFormed_ofColumns hstart, (ofColumns_names hstart).2 ?_, fun name hname hne => ?_⟩
    · exact List.mem_map.2 ⟨dates, List.mem_cons_self, hdates⟩
    · obtain ⟨c, hmem, hc⟩ := hplaced name hname hne
      obtain ⟨⟨xs, hx⟩, -⟩ := hseries c hmem
      exact ⟨xs, numeric_ok_iff.2 ⟨c, hc, hx⟩⟩
  obtain ⟨closed, hclosed', hclosedWide, hnames⟩ := closedIf_total hwide
  obtain rfl := Except.ok.inj (hclosed.symm.trans hclosed')
  refine ⟨hclosedWide, fun name hname hne => ?_⟩
  obtain ⟨c, hmem, hc⟩ := hplaced name (hnames ▸ hname) hne
  obtain ⟨-, hcomposed⟩ := hseries c hmem
  exact (column?_some hc).2 ▸ hcomposed

def gatheredLabels (separator : Char) (rows : Nat) (series : List String) :
    List (Option String) :=
  series.flatMap fun name =>
    List.replicate rows (some ((SeriesName.slice? separator name).getD ""))

def gatheredDates (date : Column α) (rows : Nat) (series : List String) : Table α :=
  (Table.mk [date] date.length).takeRows (series.flatMap fun _ => List.range rows)

omit [Scalar α] in
theorem gather_ok_iff {separator : Char} {wide long : Table α} {date slice target : String} :
    gather separator wide date (some slice) target = .ok long ↔
      ∃ dates, wide.column? date = some dates ∧
      SeriesName.ofMeasure separator wide target ≠ [] ∧
      ∃ values, (SeriesName.ofMeasure separator wide target).mapM wide.numeric = .ok values ∧
      ∃ labelled, (gatheredDates dates wide.rowCount
          (SeriesName.ofMeasure separator wide target)).setColumn
        ⟨slice, .categorical (gatheredLabels separator wide.rowCount
          (SeriesName.ofMeasure separator wide target))⟩ = .ok labelled ∧
        labelled.setColumn ⟨target, .numeric values.flatten⟩ = .ok long := by
  unfold gather
  dsimp only
  simp only [bind_ok_iff, column_ok_iff, check_ok_iff, List.isEmpty_iff]
  refine exists_congr fun dates => and_congr_right fun hdates => and_congr_right fun _ =>
    exists_congr fun values => and_congr_right fun _ => ?_
  obtain rfl := (column?_some hdates).2
  constructor
  · rintro ⟨dated, hdated, hlong⟩
    obtain rfl := Except.ok.inj hdated
    exact hlong
  · exact fun hlong => ⟨_, rfl, hlong⟩

omit [Scalar α] in
theorem gather_total {separator : Char} {wide : Table α} {date : String} (hw : wide.Wide date)
    (hd : separator ∉ date.toList) (slice : Option String) {target : String}
    (hne : SeriesName.ofMeasure separator wide target ≠ []) :
    ∃ long, gather separator wide date slice target = .ok long := by
  cases slice with
  | none => exact ⟨wide, rfl⟩
  | some slice =>
  obtain ⟨dates, hdates⟩ := exists_column hw.dated
  obtain ⟨values, hvalues⟩ := mapM_total (hw.series_numeric hd target)
  have hlength : values.map List.length =
      (SeriesName.ofMeasure separator wide target).map fun _ => wide.rowCount :=
    map_eq_of_forall₂ (mapM_ok_iff.1 hvalues) fun _ _ hx =>
      rectangular_numeric hw.wellFormed.rectangular hx
  obtain ⟨labelled, hlabelled⟩ := setColumn_total
    (t := gatheredDates dates wide.rowCount (SeriesName.ofMeasure separator wide target))
    (c := ⟨slice, .categorical (gatheredLabels separator wide.rowCount
      (SeriesName.ofMeasure separator wide target))⟩)
    fun _ => by simp [gatheredDates, gatheredLabels, Column.length, Cells.length, takeRows,
      List.length_flatMap]
  obtain ⟨long, hlong⟩ := setColumn_total (t := labelled) (c := ⟨target, .numeric values.flatten⟩)
    fun _ => by
      rw [(setColumn_columns hlabelled).2]
      simp [gatheredLabels, Column.length, Cells.length, List.length_flatten, List.length_flatMap,
        hlength]
  exact ⟨long, gather_ok_iff.2 ⟨dates, hdates, hne, values, hvalues, labelled, hlabelled, hlong⟩⟩

end Pivot

end Infill
