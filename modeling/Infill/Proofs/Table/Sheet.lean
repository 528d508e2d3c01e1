import Infill.Proofs.Distinct
import Infill.Proofs.Scalar.Exact
import Infill.Proofs.Table.SliceVeil

/-! What a sliced table holds, cell by cell. Its measures are the columns of numbers that are asked for,
its rows the dates that some row of the long table has, its columns the measures under each label of
the slice, and a cell is the average of what the rows of its date and label show of its measure. Each
measure and label have a column of their own, whatever is in the label. -/

namespace Infill

open Calendar (DateTime)
open Table (column?_some numeric_ok_iff rectangular_numeric)

namespace Table

variable {α : Type}

/-- Of several columns with one key only the first adds to the table. -/
theorem ofColumns_repeated {κ : Type} [BEq κ] [LawfulBEq κ] {first : Column α} {f : κ → Column α}
    {keys : List κ} (hfirst : ∀ a ∈ keys, (f a).name ≠ first.name)
    (hf : ∀ a ∈ keys, ∀ b ∈ keys, (f a).name = (f b).name → a = b)
    (hlength : ∀ a ∈ keys, (f a).length = first.length) :
    ofColumns (first :: keys.map f) = .ok ⟨first :: keys.eraseDups.map f, first.length⟩ := by
  induction keys using List.reverseRecOn with
  | nil => rfl
  | append_singleton keys k ih =>
    have hold : ∀ a ∈ keys, a ∈ keys ++ [k] := fun a ha => List.mem_append_left _ ha
    have hk : k ∈ keys ++ [k] := by simp
    have ih := ih (fun a ha => hfirst a (hold a ha))
      (fun a ha b hb => hf a (hold a ha) b (hold b hb)) fun a ha => hlength a (hold a ha)
    have hplace : place (f k) (first :: keys.eraseDups.map f) =
        first :: (keys ++ [k]).eraseDups.map f := by
      rw [eraseDups_concat]
      split_ifs with hmem
      · refine place_eq_self ?_ ?_
        · exact List.mem_cons_of_mem _ (List.mem_map_of_mem (List.mem_eraseDups.2 hmem))
        · intro e he hname
          rcases List.mem_cons.1 he with rfl | he
          · exact absurd hname.symm (hfirst k hk)
          · obtain ⟨a, ha, rfl⟩ := List.mem_map.1 he
            rw [hf a (hold a (List.mem_eraseDups.1 ha)) k hk hname]
      · rw [List.map_append, ← List.cons_append]
        refine place_of_fresh ?_
        intro e he hname
        rcases List.mem_cons.1 he with rfl | he
        · exact hfirst k hk hname.symm
        · obtain ⟨a, ha, rfl⟩ := List.mem_map.1 he
          have ha := List.mem_eraseDups.1 ha
          exact hmem (hf a (hold a ha) k hk hname ▸ ha)
    have hset : setColumn ⟨first :: keys.eraseDups.map f, first.length⟩ (f k) =
        .ok ⟨first :: (keys ++ [k]).eraseDups.map f, first.length⟩ :=
      setColumn_ok_iff.2 (Or.inr ⟨by simp, hlength k hk, by rw [hplace]⟩)
    rw [ofColumns, List.map_append, ← List.cons_append, List.foldlM_append]
    refine bind_ok_iff.2 ⟨_, ih, ?_⟩
    exact foldlM_cons_ok_iff.2 ⟨_, hset, rfl⟩

end Table

section Rows

variable {α : Type} [Scalar α]

omit [Scalar α] in
def Cells.time? (cells : Cells α) (row : Nat) : Option DateTime :=
  match cells with
  | .datetime times => times[row]?.join
  | _ => none

def Cells.number? (cells : Cells α) (row : Nat) : Option α :=
  match cells with
  | .numeric values => values[row]?.bind Scalar.observed
  | _ => none

omit [Scalar α] in
def Table.timeAt (t : Table α) (name : String) (row : Nat) : Option DateTime :=
  (t.column? name).bind (·.cells.time? row)

/-- The number that a column shows in one row; none where it is missing or not a number. -/
def Table.numberAt (t : Table α) (name : String) (row : Nat) : Option α :=
  (t.column? name).bind (·.cells.number? row)

namespace Pivot

omit [Scalar α] in
/-- The names that are asked for, in order: those that the pivot lists, or else those of all columns. -/
def asked (p : Pivot) (t : Table α) : List String := p.measures.getD t.names

/-- A name that is asked for is that of a measure if its column holds numbers and is neither a key nor
the place of the row. -/
structure IsMeasure (p : Pivot) (t : Table α) (name : String) : Prop where
  asked : name ∈ p.asked t
  not_date : name ≠ p.date
  not_slice : p.slice ≠ some name
  not_index : name ≠ "index"
  numeric : ∃ c values, t.column? name = some c ∧ c.cells = .numeric values

/-- All measures, each of them where it is asked for first. -/
structure Measures (p : Pivot) (t : Table α) (measures : List String) : Prop where
  mem_iff : ∀ name, name ∈ measures ↔ p.IsMeasure t name
  order : measures.Pairwise fun a b => (p.asked t).idxOf a < (p.asked t).idxOf b

/-- The numbers of a measure in the rows of one label and one date, from the first row to the
last. -/
def numbersIn (p : Pivot) (slice : String) (t : Table α) (measure label : String)
    (time : DateTime) : List α :=
  ((List.range t.rowCount).filter fun row =>
    t.timeAt p.date row = some time ∧ t.labelAt slice row = some label).filterMap
      (t.numberAt measure)

def averageOf : List α → Option α
  | [] => none
  | values => some (Scalar.sum values / (values.length : α))

def sheet (p : Pivot) (slice : String) (t : Table α) (measures : List String)
    (times : List DateTime) (labels : List String) : Table α :=
  ⟨⟨p.date, .datetime (times.map some)⟩ ::
    (measures ×ˢ labels).map fun key =>
      ⟨SeriesName.compose p.separator key.1 key.2,
        .numeric (times.map fun time => averageOf (p.numbersIn slice t key.1 key.2 time))⟩,
    times.length⟩

variable {p : Pivot} {slice : String} {t : Table α}

omit [Scalar α] in
theorem mem_spreadMeasures_iff {name : String} : name ∈ p.spreadMeasures t ↔ p.IsMeasure t name := by
  rw [mem_spreadMeasures]
  constructor
  · rintro ⟨hasked, hdate, hslice, hindex, values, hvalues⟩
    obtain ⟨c, hc, hcells⟩ := numeric_ok_iff.1 hvalues
    exact ⟨hasked, hdate, hslice.symm, hindex, c, values, hc, hcells⟩
  · rintro ⟨hasked, hdate, hslice, hindex, c, values, hc, hcells⟩
    exact ⟨hasked, hdate, hslice.symm, hindex, values, numeric_ok_iff.2 ⟨c, hc, hcells⟩⟩

omit [Scalar α] in
theorem measures_spreadMeasures (p : Pivot) (t : Table α) :
    p.Measures t (p.spreadMeasures t).eraseDups where
  mem_iff name := by rw [List.mem_eraseDups, mem_spreadMeasures_iff]
  order := by
    rw [spreadMeasures, eraseDups_filter]
    exact (eraseDups_pairwise (p.asked t)).filter _

theorem averageOf_eq_none_iff {values : List α} : averageOf values = none ↔ values = [] := by
  cases values <;> simp [averageOf]

/-- There is nothing to average where no row of the label and the date shows a number. -/
theorem numbersIn_eq_nil_iff {measure label : String} {time : DateTime} :
    p.numbersIn slice t measure label time = [] ↔ ∀ row < t.rowCount,
      t.timeAt p.date row = some time → t.labelAt slice row = some label →
        t.numberAt measure row = none := by
  simp [numbersIn, List.filterMap_eq_nil_iff]

/-- A column of one cell for each row is read row by row. -/
theorem eq_map_range {β : Type} {cells : List (Option β)} {n : Nat} (h : cells.length = n) :
    cells = (List.range n).map fun row => cells[row]?.join := by
  refine List.ext_getElem (by simp [h]) fun row hrow _ => ?_
  simp [hrow]

omit [Scalar α] in
theorem times_eq_map (ht : t.Rectangular) {date : Column α} {times : List (Option DateTime)}
    (hdate : t.column? p.date = some date) (htimes : date.cells = .datetime times) :
    times = (List.range t.rowCount).map (t.timeAt p.date) := by
  have hlength : times.length = t.rowCount := by
    rw [← ht date (column?_some hdate).1, Column.length, htimes, Cells.length]
  rw [eq_map_range hlength]
  refine List.map_congr_left fun row _ => ?_
  rw [Table.timeAt, hdate, Option.bind_some, htimes, Cells.time?]

theorem labels_eq_map (ht : t.Rectangular) {keys : Column α} (hkeys : t.column? slice = some keys) :
    keys.cells.labels = (List.range t.rowCount).map (t.labelAt slice) := by
  have hlength : keys.cells.labels.length = t.rowCount := by
    rw [← ht keys (column?_some hkeys).1, Column.length]
    cases keys.cells <;> simp [Cells.labels, Cells.length]
  rw [eq_map_range hlength]
  refine List.map_congr_left fun row _ => ?_
  rw [Table.labelAt, hkeys, Option.bind_some, Cells.label?_eq]

theorem values_eq_map (ht : t.Rectangular) {measure : String} {values : List (Option α)}
    (hvalues : t.numeric measure = .ok values) :
    values.map Scalar.observed = (List.range t.rowCount).map (t.numberAt measure) := by
  obtain ⟨c, hc, hcells⟩ := numeric_ok_iff.1 hvalues
  rw [eq_map_range (rectangular_numeric ht hvalues), List.map_map]
  refine List.map_congr_left fun row _ => ?_
  rw [Table.numberAt, hc, Option.bind_some, hcells, Cells.number?, Function.comp_apply]
  cases values[row]? <;> rfl

/-- What is known of a measure is found row by row. -/
theorem entries_eq (ht : t.Rectangular) {date keys : Column α} {measure : String}
    {times : List (Option DateTime)} {values : List (Option α)}
    (hdate : t.column? p.date = some date) (htimes : date.cells = .datetime times)
    (hkeys : t.column? slice = some keys) (hvalues : t.numeric measure = .ok values) :
    entries times keys.cells.labels values = (List.range t.rowCount).filterMap fun row => do
      return ⟨← t.timeAt p.date row, ← t.labelAt slice row, ← t.numberAt measure row⟩ := by
  have hobserved : entries times keys.cells.labels values =
      ((times.zip keys.cells.labels).zip (values.map Scalar.observed)).filterMap
        fun row => do return ⟨← row.1.1, ← row.1.2, ← row.2⟩ := by
    rw [entries, List.zip_map_right, List.filterMap_map]
    rfl
  rw [hobserved, times_eq_map ht hdate htimes, labels_eq_map ht hkeys, values_eq_map ht hvalues,
    List.zip_map', List.zip_map', List.filterMap_map]
  rfl

theorem average?_entries (ht : t.Rectangular) {date keys : Column α} {measure : String}
    {times : List (Option DateTime)} {values : List (Option α)}
    (hdate : t.column? p.date = some date) (htimes : date.cells = .datetime times)
    (hkeys : t.column? slice = some keys) (hvalues : t.numeric measure = .ok values)
    (label : String) (time : DateTime) :
    average? ((entries times keys.cells.labels values).filter (·.slice = label)) time =
      averageOf (p.numbersIn slice t measure label time) := by
  have hgroup : (((entries times keys.cells.labels values).filter (·.slice = label)).filter
      (·.time = time)).map (·.value) = p.numbersIn slice t measure label time := by
    rw [entries_eq ht hdate htimes hkeys hvalues, numbersIn, List.filter_filterMap,
      List.filter_filterMap, List.map_filterMap, List.filterMap_filter]
    refine List.filterMap_congr ?_
    rintro row -
    rcases t.timeAt p.date row with - | d
    · simp
    rcases t.labelAt slice row with - | s
    · simp
    rcases t.numberAt measure row with - | x
    · simp
    by_cases hd : d = time <;> by_cases hs : s = label <;> simp [Option.filter, hd, hs]
  rw [average?, hgroup]
  cases p.numbersIn slice t measure label time <;> rfl

/-- What a wide table tells of a long one. -/
structure Tabulates (p : Pivot) (slice : String) (t : Table α) (measures : List String)
    (times : List DateTime) (labels : List String) (wide : Table α) : Prop where
  table : wide = p.sheet slice t measures times labels
  measured : p.Measures t measures
  ascending : times.Pairwise (·.before ·)
  dates : ∀ time, time ∈ times ↔ ∃ row < t.rowCount, t.timeAt p.date row = some time
  sorted : labels.Pairwise (· < ·)
  slices : ∀ label, label ∈ labels ↔ ∃ row < t.rowCount, t.labelAt slice row = some label
  gaps : ∀ measure label time, averageOf (p.numbersIn slice t measure label time) = none ↔
    ∀ row < t.rowCount, t.timeAt p.date row = some time → t.labelAt slice row = some label →
      t.numberAt measure row = none
  apart : ∀ measure ∈ measures, ∀ measure' ∈ measures, ∀ label label',
    SeriesName.compose p.separator measure label = SeriesName.compose p.separator measure' label' →
      measure = measure' ∧ label = label'
  nodup : wide.names.Nodup

theorem series_flatten (ht : t.Rectangular) {date keys : Column α} {times : List (Option DateTime)}
    {series : List (List (Column α))} (hdate : t.column? p.date = some date)
    (htimes : date.cells = .datetime times) (hkeys : t.column? slice = some keys)
    {measures : List String} (hseries : measures.mapM (fun m =>
      (t.numeric m).map (p.seriesOf times keys.cells.labels m)) = .ok series) :
    series.flatten = (measures ×ˢ sliceAxis keys.cells.labels).map fun key =>
      ⟨SeriesName.compose p.separator key.1 key.2, .numeric ((timeAxis times).map fun time =>
        averageOf (p.numbersIn slice t key.1 key.2 time))⟩ := by
  rw [mapM_ok_iff] at hseries
  induction hseries with
  | nil => rfl
  | @cons measure group measures series hgroup _ ih =>
    obtain ⟨values, hvalues, rfl⟩ := map_ok_iff.1 hgroup
    have hproduct : (measure :: measures) ×ˢ sliceAxis keys.cells.labels =
        (sliceAxis keys.cells.labels).map (measure, ·) ++
          measures ×ˢ sliceAxis keys.cells.labels := rfl
    rw [List.flatten_cons, ih, hproduct, List.map_append, List.map_map]
    congr 1
    refine List.map_congr_left fun label _ => ?_
    rw [Function.comp_apply,
      List.map_congr_left fun time _ => average?_entries ht hdate htimes hkeys hvalues label time]

omit [Scalar α] in
theorem compose_apart (hmeasures : ∀ measure, p.IsMeasure t measure → p.separator ∉ measure.toList)
    {measure measure' label label' : String} (hm : measure ∈ p.spreadMeasures t)
    (hm' : measure' ∈ p.spreadMeasures t)
    (h : SeriesName.compose p.separator measure label =
      SeriesName.compose p.separator measure' label') : measure = measure' ∧ label = label' :=
  SeriesName.compose_inj (hmeasures measure (mem_spreadMeasures_iff.1 hm))
    (hmeasures measure' (mem_spreadMeasures_iff.1 hm')) h

theorem spread_eq_sheet (hp : p.slice = some slice) (hopen : p.fillCovariates = false)
    (ht : p.Fits t) (hplain : p.separator ∉ p.date.toList)
    (hmeasures : ∀ measure, p.IsMeasure t measure → p.separator ∉ measure.toList)
    {date keys : Column α} {times : List (Option DateTime)} (hdate : t.column? p.date = some date)
    (htimes : date.cells = .datetime times) (hkeys : t.column? slice = some keys) :
    p.spread t = .ok (p.sheet slice t (p.spreadMeasures t).eraseDups (timeAxis times)
      (sliceAxis keys.cells.labels)) := by
  obtain ⟨wide, hwide, -⟩ := spread_total ht
  obtain ⟨date', times', keys', series, start, hdate', htimes', hkeys', hseries, hstart, hclosed⟩ :=
    spread_sliced_ok hp hwide
  obtain rfl := Option.some.inj (hdate.symm.trans hdate')
  obtain rfl := Cells.datetime.inj (htimes.symm.trans htimes')
  obtain rfl := Option.some.inj (hkeys.symm.trans hkeys')
  obtain rfl : start = wide := by
    rw [closedIf, hopen] at hclosed
    exact pure_ok_iff.1 hclosed
  rw [hwide, ← hstart, series_flatten ht.rectangular hdate htimes hkeys hseries,
    Table.ofColumns_repeated]
  · rw [eraseDups_product _ (sliceAxis_nodup _)]
    simp [sheet, Column.length, Cells.length]
  · intro key _
    exact SeriesName.compose_ne hplain
  · intro a ha b hb hname
    obtain ⟨ha, -⟩ := List.mem_product.1 ha
    obtain ⟨hb, -⟩ := List.mem_product.1 hb
    obtain ⟨hm, hl⟩ := compose_apart hmeasures ha hb hname
    exact Prod.ext hm hl
  · intro key _
    simp [Column.length, Cells.length]

/-- A sliced table without filled covariates tabulates the long table, provided that no name before
the separator holds one. -/
theorem spread_tabulates (hp : p.slice = some slice) (hopen : p.fillCovariates = false)
    (ht : p.Fits t) (hplain : p.separator ∉ p.date.toList)
    (hmeasures : ∀ measure, p.IsMeasure t measure → p.separator ∉ measure.toList) :
    ∃ wide measures times labels, p.spread t = .ok wide ∧
      p.Tabulates slice t measures times labels wide := by
  obtain ⟨date, times, hdate, htimes⟩ := ht.times
  obtain ⟨keys, hkeys⟩ := ht.slice slice hp
  obtain ⟨wide, hwide, hshape, -⟩ := spread_total ht
  have hsheet := spread_eq_sheet hp hopen ht hplain hmeasures hdate htimes hkeys
  refine ⟨wide, (p.spreadMeasures t).eraseDups, timeAxis times, sliceAxis keys.cells.labels, hwide, ?_⟩
  constructor
  case table => exact Except.ok.inj (hwide.symm.trans hsheet)
  case measured => exact measures_spreadMeasures p t
  case ascending => exact timeAxis_ascending times
  case dates =>
    intro time
    rw [mem_timeAxis, times_eq_map ht.rectangular hdate htimes]
    simp
  case sorted => exact sliceAxis_ascending _
  case slices =>
    intro label
    rw [mem_sliceAxis, labels_eq_map ht.rectangular hkeys]
    simp
  case gaps =>
    intro measure label time
    rw [averageOf_eq_none_iff, numbersIn_eq_nil_iff]
  case apart =>
    intro measure hm measure' hm' label label'
    exact compose_apart hmeasures (List.mem_eraseDups.1 hm) (List.mem_eraseDups.1 hm')
  case nodup => exact hshape.wellFormed.nodup

def sightings : Pivot where
  date := "date"
  slice := some "province"
  measures := some ["traps", "adults", "traps", "province"]
  target := "adults"
  fillCovariates := false
  separator := '!'

/-- A province with the separator in its name is there twice on one day; on another no province is
known. -/
def sightingRows : Table (Exact ℚ) where
  columns := [
    ⟨"date", .datetime ([some 1, some 1, some 2, none].map (Option.map fun day =>
      Calendar.Date.midnight ⟨2024, 6, day⟩))⟩,
    ⟨"province", .categorical [some "R!A", some "R!A", none, some "BO"]⟩,
    ⟨"traps", .numeric [some (.number 1), some (.number 4), none, some .nan]⟩,
    ⟨"adults", .numeric [none, some (.number 7), some (.number 2), some (.number 3)]⟩]
  rowCount := 4

theorem sightings_fit : sightings.Fits sightingRows where
  rectangular := by simp [Table.Rectangular, sightingRows, Column.length, Cells.length]
  times := ⟨_, _, rfl, rfl⟩
  slice _ h := by
    obtain rfl := Option.some.inj h
    exact ⟨_, rfl⟩

/-- The traps of the province with the separator in its name are averaged over its two rows of the first
day. The day without a province has a row too, and the province without a day its columns. -/
theorem sightings_tabulated : ∃ wide measures times labels,
    sightings.spread sightingRows = .ok wide ∧
    sightings.Tabulates "province" sightingRows measures times labels wide ∧
    "adults" ∈ measures ∧ Calendar.Date.midnight ⟨2024, 6, 2⟩ ∈ times ∧ "BO" ∈ labels ∧
    wide.names = ["date", "traps!BO", "traps!R!A", "adults!BO", "adults!R!A"] ∧
    wide.numberAt "traps!R!A" 0 = some (.number (5 / 2)) := by
  obtain ⟨wide, measures, times, labels, hwide, htable⟩ :=
    spread_tabulates rfl rfl sightings_fit (by decide) fun measure h =>
      (by decide : ∀ name ∈ ["traps", "adults", "traps", "province"], '!' ∉ name.toList)
        measure h.asked
  have hnames : (sightings.spread sightingRows).toOption.map (·.names) =
      some ["date", "traps!BO", "traps!R!A", "adults!BO", "adults!R!A"] := by decide +kernel
  have hcell : (sightings.spread sightingRows).toOption.bind (·.numberAt "traps!R!A" 0) =
      some (.number (5 / 2)) := by decide +kernel
  rw [hwide] at hnames hcell
  exact ⟨wide, measures, times, labels, hwide, htable,
    (htable.measured.mem_iff _).2 ⟨by decide, by decide, by decide, by decide, _, _, rfl, rfl⟩,
    (htable.dates _).2 ⟨2, by decide, rfl⟩, (htable.slices _).2 ⟨3, by decide, rfl⟩,
    Option.some.inj hnames, hcell⟩

end Pivot

end Rows

end Infill
