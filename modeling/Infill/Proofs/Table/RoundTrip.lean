import Mathlib.Data.List.ProdSigma
import Infill.Proofs.Scalar.Exact
import Infill.Proofs.Table.Spread

/-! Spreading one measure and gathering its series again are inverse to each other. Both shapes show
one cell for every date and every slice value, in a grid or below each other; a long table of any
other shape is spread to the grid of its averages. -/

namespace Infill

open Calendar (DateTime)
open Table (column_ok_iff times_ok_iff numeric_ok_iff)

namespace Pivot

/-- Nothing but the target is spread, and no name stands in the way of another. -/
structure SpreadsTarget (p : Pivot) (slice : String) : Prop where
  sliced : p.slice = some slice
  measures : p.measures = some [p.target]
  date_ne_slice : p.date ≠ slice
  date_ne_target : p.date ≠ p.target
  slice_ne_target : slice ≠ p.target
  target_ne_index : p.target ≠ "index"
  date_plain : p.separator ∉ p.date.toList
  target_plain : p.separator ∉ p.target.toList

section Shapes

variable {α : Type}

def grid (p : Pivot) (times : List DateTime) (slices : List String)
    (cell : String → DateTime → Option α) : Table α :=
  ⟨⟨p.date, .datetime (times.map some)⟩ :: slices.map fun s =>
    ⟨SeriesName.compose p.separator p.target s, .numeric (times.map (cell s))⟩, times.length⟩

def listing (p : Pivot) (slice : String) (rows : List (String × DateTime))
    (cell : String → DateTime → Option α) : Table α :=
  ⟨[⟨p.date, .datetime (rows.map fun r => some r.2)⟩,
    ⟨slice, .categorical (rows.map fun r => some r.1)⟩,
    ⟨p.target, .numeric (rows.map fun r => cell r.1 r.2)⟩], rows.length⟩

variable {p : Pivot} {slice : String}

theorem grid_names (p : Pivot) (times : List DateTime) (slices : List String)
    (cell : String → DateTime → Option α) : (p.grid times slices cell).names =
      p.date :: slices.map (SeriesName.compose p.separator p.target) := by
  simp [grid, Table.names, Function.comp_def]

theorem grid_nodup (hp : p.SpreadsTarget slice) (times : List DateTime) {slices : List String}
    (hslices : slices.Nodup) (cell : String → DateTime → Option α) :
    (p.grid times slices cell).names.Nodup := by
  rw [grid_names, List.nodup_cons]
  refine ⟨?_, hslices.map (SeriesName.compose_injective hp.target_plain)⟩
  intro hmem
  obtain ⟨s, -, hs⟩ := List.mem_map.1 hmem
  exact SeriesName.compose_ne hp.date_plain hs

theorem grid_congr (p : Pivot) {times : List DateTime} {slices : List String}
    {cell cell' : String → DateTime → Option α}
    (h : ∀ s ∈ slices, ∀ d ∈ times, cell s d = cell' s d) :
    p.grid times slices cell = p.grid times slices cell' := by
  unfold grid
  congr 2
  refine List.map_congr_left fun s hs => ?_
  rw [List.map_congr_left (h s hs)]

theorem ofColumns_grid (hp : p.SpreadsTarget slice) (times : List DateTime) {slices : List String}
    (hslices : slices.Nodup) (cell : String → DateTime → Option α) :
    Table.ofColumns (p.grid times slices cell).columns = .ok (p.grid times slices cell) := by
  rw [grid, Table.ofColumns_eq (grid_nodup hp times hslices cell)]
  · simp [Column.length, Cells.length]
  · intro c hc
    obtain ⟨s, -, rfl⟩ := List.mem_map.1 hc
    simp [Column.length, Cells.length]

theorem spreadMeasures_target (hp : p.SpreadsTarget slice) {t : Table α} {values : List (Option α)}
    (hvalues : t.numeric p.target = .ok values) : p.spreadMeasures t = [p.target] := by
  have hnumeric : isNumeric t p.target = true := isNumeric_iff.2 ⟨values, hvalues⟩
  simp [spreadMeasures, hp.measures, hp.sliced, hnumeric, hp.date_ne_target.symm,
    hp.slice_ne_target.symm, hp.target_ne_index]

theorem ofMeasure_grid (hp : p.SpreadsTarget slice) (times : List DateTime) (slices : List String)
    (cell : String → DateTime → Option α) :
    SeriesName.ofMeasure p.separator (p.grid times slices cell) p.target =
      slices.map (SeriesName.compose p.separator p.target) := by
  rw [SeriesName.ofMeasure, grid_names, List.filter_cons_of_neg, List.filter_eq_self]
  · intro name hname
    obtain ⟨s, -, rfl⟩ := List.mem_map.1 hname
    simp [SeriesName.decompose?_compose hp.target_plain]
  · simp [SeriesName.decompose?_none hp.date_plain]

theorem grid_numeric (hp : p.SpreadsTarget slice) (times : List DateTime) {slices : List String}
    (hslices : slices.Nodup) (cell : String → DateTime → Option α) {s : String} (hs : s ∈ slices) :
    (p.grid times slices cell).numeric (SeriesName.compose p.separator p.target s) =
      .ok (times.map (cell s)) := by
  have hmem : ⟨SeriesName.compose p.separator p.target s, .numeric (times.map (cell s))⟩ ∈
      (p.grid times slices cell).columns :=
    List.mem_cons_of_mem _ (List.mem_map.2 ⟨s, hs, rfl⟩)
  exact numeric_ok_iff.2 ⟨_, Table.column?_of_mem (grid_nodup hp times hslices cell) hmem, rfl⟩

/-- What stands in the cells of a listing, block by block. -/
theorem map_product {β γ δ : Type} (f : β → γ → δ) (xs : List β) (ys : List γ) :
    (xs ×ˢ ys).map (fun r => f r.1 r.2) = xs.flatMap fun x => ys.map (f x) := by
  simp [SProd.sprod, List.product, List.map_flatMap, Function.comp_def]

theorem gatheredDates_grid (p : Pivot) (times : List DateTime) (slices : List String) :
    gatheredDates (α := α) ⟨p.date, .datetime (times.map some)⟩ times.length
        (slices.map (SeriesName.compose p.separator p.target)) =
      ⟨[⟨p.date, .datetime ((slices ×ˢ times).map fun r => some r.2)⟩],
        (slices ×ˢ times).length⟩ := by
  have hblock : (List.range times.length).map (fun i => (times.map some)[i]?.join) =
      times.map some := by
    refine List.ext_getElem (by simp) fun i hi _ => ?_
    have hlt : i < times.length := by simpa using hi
    simp [hlt]
  have hlength : (slices.flatMap fun _ => List.range times.length).length =
      (slices ×ˢ times).length := by
    simp [List.length_flatMap, List.length_product]
  rw [gatheredDates, Table.takeRows, List.flatMap_map, hlength, map_product fun _ time => some time]
  simp only [List.map_cons, List.map_nil, Cells.take, List.map_flatMap, hblock]

theorem gatheredLabels_grid (hp : p.SpreadsTarget slice) (times : List DateTime)
    (slices : List String) :
    gatheredLabels p.separator times.length
        (slices.map (SeriesName.compose p.separator p.target)) =
      (slices ×ˢ times).map fun r => some r.1 := by
  rw [gatheredLabels, List.flatMap_map, map_product fun s _ => some s]
  simp [SeriesName.slice?, SeriesName.decompose?_compose hp.target_plain]

/-- A listing is put together column by column. -/
theorem setColumn_listing (hp : p.SpreadsTarget slice) (rows : List (String × DateTime))
    (cell : String → DateTime → Option α) : ∃ labelled,
      Table.setColumn ⟨[⟨p.date, .datetime (rows.map fun r => some r.2)⟩], rows.length⟩
        ⟨slice, .categorical (rows.map fun r => some r.1)⟩ = .ok labelled ∧
      labelled.setColumn ⟨p.target, .numeric (rows.map fun r => cell r.1 r.2)⟩ =
        .ok (p.listing slice rows cell) := by
  refine ⟨⟨[⟨p.date, .datetime (rows.map fun r => some r.2)⟩,
    ⟨slice, .categorical (rows.map fun r => some r.1)⟩], rows.length⟩, ?_, ?_⟩
  · refine Table.setColumn_ok_iff.2 (Or.inr ⟨by simp, List.length_map .., ?_⟩)
    simp [Table.place, hp.date_ne_slice]
  · refine Table.setColumn_ok_iff.2 (Or.inr ⟨by simp, List.length_map .., ?_⟩)
    simp [listing, Table.place, hp.date_ne_target, hp.slice_ne_target]

theorem gather_grid (hp : p.SpreadsTarget slice) (times : List DateTime) {slices : List String}
    (hslices : slices.Nodup) (hne : slices ≠ []) (cell : String → DateTime → Option α) :
    gather p.separator (p.grid times slices cell) p.date (some slice) p.target =
      .ok (p.listing slice (slices ×ˢ times) cell) := by
  have hdate : (p.grid times slices cell).column? p.date =
      some ⟨p.date, .datetime (times.map some)⟩ :=
    Table.column?_of_mem (grid_nodup hp times hslices cell) (List.mem_cons_self ..)
  have hvalues : (slices.map (SeriesName.compose p.separator p.target)).mapM
      (p.grid times slices cell).numeric = .ok (slices.map fun s => times.map (cell s)) := by
    rw [mapM_ok_iff, List.forall₂_map_left_iff, List.forall₂_map_right_iff, List.forall₂_same]
    exact fun s hs => grid_numeric hp times hslices cell hs
  have hcells : (slices.map fun s => times.map (cell s)).flatten =
      (slices ×ˢ times).map fun r => cell r.1 r.2 := by
    rw [map_product, List.flatMap_def]
  have hrows : (p.grid times slices cell).rowCount = times.length := rfl
  rw [gather_ok_iff, ofMeasure_grid hp, hrows, gatheredLabels_grid hp]
  refine ⟨_, hdate, by simpa using hne, _, hvalues, ?_⟩
  rw [gatheredDates_grid, hcells]
  exact setColumn_listing hp _ cell

variable [Scalar α]

/-- The dates, the labels of the slices and the numbers in the rows of a table. -/
structure Reads (p : Pivot) (slice : String) (t : Table α) (times : List (Option DateTime))
    (labels : List (Option String)) (values : List (Option α)) : Prop where
  times : t.datetime p.date = .ok times
  labels : (t.column slice).map (·.cells.labels) = .ok labels
  values : t.numeric p.target = .ok values

theorem closedIf_grid (hp : p.SpreadsTarget slice) (times : List DateTime) (slices : List String)
    (cell : String → DateTime → Option α) :
    p.closedIf (p.grid times slices cell) = .ok (p.grid times slices cell) := by
  have hcovariates : (p.grid times slices cell).names.filter (fun name =>
      name ≠ p.date && SeriesName.measure p.separator name ≠ p.target) = [] := by
    rw [grid_names, List.filter_eq_nil_iff]
    intro name hname
    rcases List.mem_cons.1 hname with rfl | hname
    · simp
    · obtain ⟨s, -, rfl⟩ := List.mem_map.1 hname
      simp [SeriesName.measure, SeriesName.decompose?_compose hp.target_plain]
  unfold closedIf closeCovariates
  rw [hcovariates]
  exact ite_self _

/-- Whatever table has these dates, labels and numbers, it is spread to the grid of its averages. -/
theorem spread_target (hp : p.SpreadsTarget slice) {t : Table α} {times : List (Option DateTime)}
    {labels : List (Option String)} {values : List (Option α)}
    (ht : p.Reads slice t times labels values) :
    p.spread t = .ok (p.grid (timeAxis times) (sliceAxis labels) fun s =>
      average? ((entries times labels values).filter (·.slice = s))) := by
  obtain ⟨date, hdate, htimes⟩ := bind_ok_iff.1 ht.times
  obtain ⟨keys, hkeys, rfl⟩ := map_ok_iff.1 ht.labels
  have hseries : (p.spreadMeasures t).mapM
      (fun m => (t.numeric m).map (p.seriesOf times keys.cells.labels m)) =
      .ok [p.seriesOf times keys.cells.labels p.target values] := by
    rw [spreadMeasures_target hp ht.values, mapM_ok_iff]
    exact .cons (map_ok_iff.2 ⟨values, ht.values, rfl⟩) .nil
  have hcolumns : p.columnsFor t date = .ok (⟨p.date, .datetime ((timeAxis times).map some)⟩ ::
      p.seriesOf times keys.cells.labels p.target values) := by
    rw [columnsFor, hp.sliced]
    simp only [slicedColumns_eq, bind_ok_iff]
    exact ⟨times, htimes, keys, hkeys, _, hseries, by rw [List.flatten_singleton]⟩
  rw [spread_eq, hdate]
  refine bind_ok_iff.2 ⟨date, rfl, bind_ok_iff.2 ⟨_, hcolumns, bind_ok_iff.2 ⟨_, ?_,
    closedIf_grid hp _ _ _⟩⟩⟩
  exact ofColumns_grid hp _ (sliceAxis_nodup _) _

theorem listing_reads (hp : p.SpreadsTarget slice) (rows : List (String × DateTime))
    (cell : String → DateTime → Option α) :
    p.Reads slice (p.listing slice rows cell) (rows.map fun r => some r.2)
      (rows.map fun r => some r.1) (rows.map fun r => cell r.1 r.2) where
  times := by
    simp [Table.datetime, Table.column, Table.column?, listing, Column.times, bind, Except.bind]
  labels := by
    simp [Table.column, Table.column?, listing, hp.date_ne_slice, Except.map, Cells.labels]
  values := by
    simp [Table.numeric, Table.column, Table.column?, listing, hp.date_ne_target,
      hp.slice_ne_target, Column.values, bind, Except.bind]

end Shapes

section Averages

variable {K : Type} [ExactNumber K] {p : Pivot} {slice : String}

def numbersAt (times : List (Option DateTime)) (labels : List (Option String))
    (values : List (Option (Exact K))) (slice : String) (time : DateTime) : List K :=
  ((times.zip labels).zip values).filterMap fun ((t, s), x) =>
    if t = some time ∧ s = some slice then x.bind Exact.number? else none

def averageAt (times : List (Option DateTime)) (labels : List (Option String))
    (values : List (Option (Exact K))) (slice : String) (time : DateTime) : Option (Exact K) :=
  (Exact.mean? (numbersAt times labels values slice time)).map .number

theorem values_eq_numbersAt (times : List (Option DateTime)) (labels : List (Option String))
    (values : List (Option (Exact K))) (slice : String) (time : DateTime) :
    (((entries times labels values).filter (·.slice = slice)).filter (·.time = time)).map
      (·.value) = (numbersAt times labels values slice time).map .number := by
  unfold entries numbersAt
  rw [List.filter_filterMap, List.filter_filterMap, List.map_filterMap, List.map_filterMap]
  -- Row by row; a row without a date, a slice value or a number has no part in either list.
  refine List.filterMap_congr ?_
  rintro ⟨⟨t, s⟩, x⟩ -
  simp only [Exact.observed_eq]
  generalize x.bind Exact.number? = cell
  rcases t with - | t
  · simp
  rcases s with - | s
  · simp
  rcases cell with - | x
  · simp
  by_cases ht : t = time <;> by_cases hs : s = slice <;> simp [Option.filter, ht, hs]

theorem average?_eq (times : List (Option DateTime)) (labels : List (Option String))
    (values : List (Option (Exact K))) (slice : String) (time : DateTime) :
    average? ((entries times labels values).filter (·.slice = slice)) time =
      averageAt times labels values slice time := by
  unfold average? averageAt
  rw [values_eq_numbersAt]
  cases hnumbers : numbersAt times labels values slice time with
  | nil => rfl
  | cons x xs =>
    have hmean := Exact.mean_numbers (List.cons_ne_nil x xs)
    simpa [Exact.mean?] using hmean

/-- Over exact numbers a cell of the grid is an average of its own date and slice value. -/
theorem spread_averages (hp : p.SpreadsTarget slice) {t : Table (Exact K)}
    {times : List (Option DateTime)} {labels : List (Option String)}
    {values : List (Option (Exact K))} (ht : p.Reads slice t times labels values) :
    p.spread t = .ok (p.grid (timeAxis times) (sliceAxis labels)
      (averageAt times labels values)) := by
  rw [spread_target hp ht]
  congr
  funext s d
  exact average?_eq times labels values s d

omit [ExactNumber K] in
theorem numbersAt_listing {rows : List (String × DateTime)} (hrows : rows.Nodup)
    (mean : String → DateTime → Option K) {s : String} {d : DateTime} (hmem : (s, d) ∈ rows) :
    numbersAt (rows.map fun r => some r.2) (rows.map fun r => some r.1)
      (rows.map fun r => (mean r.1 r.2).map .number) s d = (mean s d).toList := by
  have hcell : ∀ x : Option K, (x.map Exact.number).bind Exact.number? = x := by
    rintro (- | x) <;> rfl
  have hother : ∀ rest : List (String × DateTime), (s, d) ∉ rest →
      rest.filterMap (fun r => if r.2 = d ∧ r.1 = s then mean r.1 r.2 else none) = [] := by
    intro rest hrest
    rw [List.filterMap_eq_nil_iff]
    rintro ⟨s', d'⟩ hr
    rw [if_neg]
    rintro ⟨rfl, rfl⟩
    exact hrest hr
  obtain ⟨before, after, rfl⟩ := List.append_of_mem hmem
  have hfresh : (s, d) ∉ before ∧ (s, d) ∉ after := by
    rw [List.nodup_append] at hrows
    exact ⟨fun h => hrows.2.2 _ h _ (List.mem_cons_self ..) rfl, (List.nodup_cons.1 hrows.2.1).1⟩
  unfold numbersAt
  rw [List.zip_map', List.zip_map', List.filterMap_map]
  simp only [Function.comp_def, Option.some.injEq, hcell]
  rw [List.filterMap_append, List.filterMap_cons, hother _ hfresh.1, hother _ hfresh.2]
  cases mean s d <;> simp

/-- A column that shows the values of an axis, and no other, has that axis. -/
theorem ascending_column {β γ : Type} [BEq γ] [LawfulBEq γ] {before : γ → γ → Bool}
    (hb : Axis.Strict before) {axis : List γ} (haxis : axis.Pairwise (before · ·)) {rows : List β}
    {f : β → γ} (h : ∀ x, (∃ r ∈ rows, f r = x) ↔ x ∈ axis) :
    Axis.ascending before ((rows.map fun r => some (f r)).filterMap id) = axis := by
  refine Axis.ascending_eq hb haxis fun x => ?_
  rw [List.filterMap_map, ← h x]
  simp

/-- The listing of a grid is spread to that grid again. -/
theorem spread_listing (hp : p.SpreadsTarget slice) {times : List DateTime} {slices : List String}
    (htimes : times.Pairwise (·.before ·)) (hslices : slices.Pairwise (· < ·))
    (htimesNe : times ≠ []) (hslicesNe : slices ≠ []) (mean : String → DateTime → Option K) :
    p.spread (p.listing slice (slices ×ˢ times) fun s d => (mean s d).map Exact.number) =
      .ok (p.grid times slices fun s d => (mean s d).map Exact.number) := by
  have hcell : ∀ {s d}, (s, d) ∈ slices ×ˢ times ↔ s ∈ slices ∧ d ∈ times :=
    List.pair_mem_product
  have hslicesNodup : slices.Nodup := hslices.imp fun h => ne_of_lt h
  have hrows : (slices ×ˢ times).Nodup :=
    hslicesNodup.product (DateTime.before_strict.nodup htimes)
  -- Every date is listed with some slice value, and the other way around, so no axis gets shorter.
  obtain ⟨d₀, hd₀⟩ := List.exists_mem_of_ne_nil _ htimesNe
  obtain ⟨s₀, hs₀⟩ := List.exists_mem_of_ne_nil _ hslicesNe
  have htimeAxis : timeAxis ((slices ×ˢ times).map fun r => some r.2) = times := by
    refine ascending_column DateTime.before_strict htimes fun d => ⟨?_, fun hd => ?_⟩
    · rintro ⟨r, hr, rfl⟩
      exact (hcell.1 hr).2
    · exact ⟨(s₀, d), hcell.2 ⟨hs₀, hd⟩, rfl⟩
  have hsliceAxis : sliceAxis ((slices ×ˢ times).map fun r => some r.1) = slices := by
    refine ascending_column Axis.strict_lt (by simpa using hslices) fun s => ⟨?_, fun hs => ?_⟩
    · rintro ⟨r, hr, rfl⟩
      exact (hcell.1 hr).1
    · exact ⟨(s, d₀), hcell.2 ⟨hs, hd₀⟩, rfl⟩
  rw [spread_averages hp (listing_reads hp _ _), htimeAxis, hsliceAxis]
  congr 1
  refine grid_congr p fun s hs d hd => ?_
  rw [averageAt, numbersAt_listing hrows mean (hcell.2 ⟨hs, hd⟩), Exact.mean?_toList]

/-- The rows that are gathered from a spread table are the cells of the grid, each date and slice
value once, with the averages; and they are spread to the same table. -/
theorem gather_spread (hp : p.SpreadsTarget slice) {t : Table (Exact K)}
    {times : List (Option DateTime)} {labels : List (Option String)}
    {values : List (Option (Exact K))} (ht : p.Reads slice t times labels values)
    (hdate : ∃ d, some d ∈ times) (hslice : ∃ s, some s ∈ labels) :
    ∃ wide rows, p.spread t = .ok wide ∧
      gather p.separator wide p.date (some slice) p.target =
        .ok (p.listing slice rows (averageAt times labels values)) ∧
      rows.Nodup ∧ (∀ s d, (s, d) ∈ rows ↔ some s ∈ labels ∧ some d ∈ times) ∧
      (∀ s d x, numbersAt times labels values s d = [x] →
        averageAt times labels values s d = some (.number x)) ∧
      p.spread (p.listing slice rows (averageAt times labels values)) = .ok wide := by
  have htimesNe : timeAxis times ≠ [] := by
    obtain ⟨d, hd⟩ := hdate
    exact List.ne_nil_of_mem (mem_timeAxis.2 hd)
  have hslicesNe : sliceAxis labels ≠ [] := by
    obtain ⟨s, hs⟩ := hslice
    exact List.ne_nil_of_mem (mem_sliceAxis.2 hs)
  have hsingle : ∀ s d x, numbersAt times labels values s d = [x] →
      averageAt times labels values s d = some (.number x) := by
    intro s d x hx
    rw [averageAt, hx]
    exact congrArg (Option.map Exact.number) (Exact.mean?_toList (some x))
  refine ⟨_, sliceAxis labels ×ˢ timeAxis times, spread_averages hp ht,
    gather_grid hp _ (sliceAxis_nodup _) hslicesNe _,
    (sliceAxis_nodup _).product (timeAxis_nodup _), fun s d => ?_, hsingle,
    spread_listing hp (timeAxis_ascending _) (sliceAxis_ascending _) htimesNe hslicesNe _⟩
  rw [← mem_sliceAxis, ← mem_timeAxis]
  exact List.pair_mem_product

end Averages

def counts : Pivot where
  date := "date"
  slice := some "province"
  measures := some ["adults"]
  target := "adults"
  fillCovariates := true
  separator := '!'

def june (day : Nat) : DateTime := Calendar.Date.midnight ⟨2024, 6, day⟩

theorem counts_spreadsTarget : counts.SpreadsTarget "province" := by
  constructor <;> simp [counts]

namespace Recount

def dates : List (Option DateTime) :=
  [some (june 1), some (june 1), some (june 1), some (june 2), none]

/-- One province is there twice on a day, and one has a name with the separator. -/
def provinces : List (Option String) :=
  [some "BO", some "BO", some "R!A", some "R!A", some "FE"]

def adults : List (Option (Exact ℚ)) :=
  [some (.number 1), some (.number 4), some .nan, some (.number 7), none]

def table : Table (Exact ℚ) :=
  ⟨[⟨"date", .datetime dates⟩, ⟨"province", .categorical provinces⟩,
    ⟨"adults", .numeric adults⟩], 5⟩

theorem reads : counts.Reads "province" table dates provinces adults := ⟨rfl, rfl, rfl⟩

theorem gather_spread_counts : ∃ wide rows, counts.spread table = .ok wide ∧
    gather '!' wide "date" (some "province") "adults" =
      .ok (counts.listing "province" rows (averageAt dates provinces adults)) ∧
    ("BO", june 2) ∈ rows ∧ averageAt dates provinces adults "BO" (june 2) = none ∧
    ("BO", june 1) ∈ rows ∧
    averageAt dates provinces adults "BO" (june 1) = some (.number (5 / 2)) ∧
    ("R!A", june 2) ∈ rows ∧ averageAt dates provinces adults "R!A" (june 2) = some (.number 7) ∧
    counts.spread (counts.listing "province" rows (averageAt dates provinces adults)) =
      .ok wide := by
  obtain ⟨wide, rows, hwide, hlong, -, hrows, hone, hback⟩ :=
    gather_spread counts_spreadsTarget reads ⟨june 1, by simp [dates]⟩ ⟨"BO", by simp [provinces]⟩
  have hnone : averageAt dates provinces adults "BO" (june 2) = none := by
    have : numbersAt dates provinces adults "BO" (june 2) = [] := rfl
    rw [averageAt, this]
    rfl
  have htwo : averageAt dates provinces adults "BO" (june 1) = some (.number (5 / 2)) := by
    have : numbersAt dates provinces adults "BO" (june 1) = [1, 4] := rfl
    norm_num [averageAt, this, Exact.mean?]
  have hsingle : numbersAt dates provinces adults "R!A" (june 2) = [7] := rfl
  refine ⟨wide, rows, hwide, hlong, ?_, hnone, ?_, htwo, ?_, hone _ _ _ hsingle, hback⟩ <;>
    simp [hrows, dates, provinces]

end Recount

end Pivot

end Infill
