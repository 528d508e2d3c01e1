import Infill.Impute.Gap
import Infill.Proofs.Table.Covariates
import Infill.Proofs.Table.RoundTrip

/-! What the names of a wide table tell of it. The series of a measure are found under its name, and the
series of a slice value under the value, each column under one of either, as long as neither the date
nor a measure has the separator in its name. Nothing is asked of the slice values. -/

namespace Infill

variable {α : Type}

section Pairs

variable {β γ : Type}

theorem filter_fst_product [DecidableEq β] {xs : List β} (hxs : xs.Nodup) (ys : List γ) (x : β) :
    (xs ×ˢ ys).filter (fun key => key.1 = x) = if x ∈ xs then ys.map (x, ·) else [] := by
  induction xs with
  | nil => rfl
  | cons a xs ih =>
    obtain ⟨ha, hxs⟩ := List.nodup_cons.1 hxs
    rw [List.product_cons, List.filter_append, ih hxs, List.filter_map]
    by_cases hax : a = x
    · subst hax
      simp [ha, Function.comp_def]
    · simp [hax, Ne.symm hax, Function.comp_def]

theorem filter_snd_product [DecidableEq γ] (xs : List β) {ys : List γ} (hys : ys.Nodup) {y : γ}
    (hy : y ∈ ys) : (xs ×ˢ ys).filter (fun key => key.2 = y) = xs.map (·, y) := by
  have hone : ys.filter (fun b => decide (b = y)) = [y] := by
    rw [List.filter_eq, List.count_eq_one_of_mem hys hy]
    rfl
  induction xs with
  | nil => rfl
  | cons a xs ih =>
    rw [List.product_cons, List.filter_append, ih, List.filter_map]
    change (ys.filter fun b => decide (b = y)).map (a, ·) ++ xs.map (·, y) = _
    rw [hone]
    rfl

end Pairs

namespace Table

/-- The columns that a test of their names keeps, selected by name. -/
theorem select_filter {t : Table α} (ht : t.WellFormed) {keep : String → Bool}
    (hsome : t.names.filter keep ≠ []) :
    t.select (t.names.filter keep) = .ok ⟨t.columns.filter fun c => keep c.name, t.rowCount⟩ := by
  have hnames : t.names.filter keep = (t.columns.filter fun c => keep c.name).map (·.name) := by
    rw [names, List.filter_map]
    rfl
  have hread : (t.names.filter keep).mapM t.column = .ok (t.columns.filter fun c => keep c.name) := by
    rw [hnames, mapM_ok_iff, List.forall₂_map_left_iff, List.forall₂_same]
    intro c hc
    exact column_ok_iff.2 (column?_of_mem ht.nodup (List.mem_filter.1 hc).1)
  refine bind_ok_iff.2 ⟨_, hread, ofColumns_distinct ?_ ?_ ?_⟩
  · intro hnone
    rw [hnames, hnone] at hsome
    exact hsome rfl
  · exact hnames ▸ ht.nodup.filter _
  · intro c hc
    exact ht.rectangular c (List.mem_filter.1 hc).1

end Table

namespace Carry

variable [Scalar α]

theorem dense?_of_shown {cells : List (Option α)} (h : ∃ row, shown cells row ≠ none) :
    ∃ values, dense? cells = some values := by
  have hfilled : ∀ cell ∈ fill cells, ∃ x, cell = some x := by
    intro cell hcell
    obtain ⟨row, hrow⟩ := List.mem_iff_getElem?.1 hcell
    have hlt : row < cells.length := by
      have := (List.getElem?_eq_some_iff.1 hrow).1
      rwa [length_fill] at this
    obtain ⟨x, hx⟩ := exists_nearest h row
    rw [fill_nearest hlt hx] at hrow
    exact ⟨x, (Option.some.inj hrow).symm⟩
  unfold dense?
  generalize fill cells = filled at hfilled
  induction filled with
  | nil => exact ⟨[], rfl⟩
  | cons cell rest ih =>
    obtain ⟨x, rfl⟩ := hfilled _ List.mem_cons_self
    obtain ⟨values, hvalues⟩ := ih fun cell hcell => hfilled cell (List.mem_cons_of_mem _ hcell)
    exact ⟨x :: values, by rw [List.mapM_cons, hvalues]; rfl⟩

end Carry

section Covariates

variable [Scalar α] {separator : Char} {t : Table α} {measure name : String}

theorem mem_namedCovariates :
    name ∈ (namedCovariates separator t measure).map (·.1) ↔ ∃ c ∈ t.columns, c.name = name ∧
      SeriesName.measure separator name ≠ measure ∧
      ∃ xs values, c.cells = .numeric xs ∧ Carry.dense? xs = some values := by
  rw [namedCovariates, List.map_filterMap, List.mem_filterMap]
  refine exists_congr fun c => and_congr_right fun _ => ?_
  cases hcells : c.cells with
  | numeric xs =>
    by_cases hm : SeriesName.measure separator c.name = measure
    · constructor
      · simp [hm]
      · rintro ⟨rfl, hne, -⟩
        exact absurd hm hne
    · cases hdense : Carry.dense? xs with
      | none => simp [hm, hdense]
      | some values =>
        simp only [hm, if_false, hdense, Option.map_some, Option.some.injEq]
        constructor
        · rintro rfl
          exact ⟨rfl, hm, xs, values, rfl, hdense⟩
        · exact fun h => h.1
  | categorical labels => simp
  | datetime times => simp

end Covariates

namespace Pivot

/-- A wide table that has a column for every measure and slice value and none else but its dates, where
neither the dates nor a measure have the separator in their names. -/
structure Named (p : Pivot) (measures slices : List String) (wide : Table α) : Prop where
  wellFormed : wide.WellFormed
  names : wide.names =
    p.date :: (measures ×ˢ slices).map fun key => SeriesName.compose p.separator key.1 key.2
  date_plain : p.separator ∉ p.date.toList
  plain : ∀ m ∈ measures, p.separator ∉ m.toList
  date_ne : p.date ∉ measures
  measures_nodup : measures.Nodup
  slices_nodup : slices.Nodup

def frameOf (p : Pivot) (wide : Table α) (slice : String) : Table α :=
  ⟨wide.columns.filter fun c =>
    c.name = p.date || SeriesName.slice? p.separator c.name == some slice, wide.rowCount⟩

namespace Named

variable {p : Pivot} {measures slices : List String} {wide frame : Table α}
  {name m v s target : String}

theorem decompose? (h : p.Named measures slices wide) (hm : m ∈ measures) (s : String) :
    SeriesName.decompose? p.separator (SeriesName.compose p.separator m s) = some (m, s) :=
  SeriesName.decompose?_compose (h.plain m hm) s

theorem slice? (h : p.Named measures slices wide) (hm : m ∈ measures) (s : String) :
    SeriesName.slice? p.separator (SeriesName.compose p.separator m s) = some s := by
  rw [SeriesName.slice?, h.decompose? hm]
  rfl

theorem measure (h : p.Named measures slices wide) (hm : m ∈ measures) (s : String) :
    SeriesName.measure p.separator (SeriesName.compose p.separator m s) = m := by
  rw [SeriesName.measure, h.decompose? hm]
  rfl

theorem slice?_date (h : p.Named measures slices wide) :
    SeriesName.slice? p.separator p.date = none := by
  rw [SeriesName.slice?, SeriesName.decompose?_none h.date_plain]
  rfl

/-- Every column but the dates has a measure and a slice value. -/
theorem mem_names_iff (h : p.Named measures slices wide) : name ∈ wide.names ↔ name = p.date ∨
    ∃ m ∈ measures, ∃ s ∈ slices, name = SeriesName.compose p.separator m s := by
  rw [h.names, List.mem_cons, List.mem_map]
  simp only [Prod.exists, List.mem_product, and_assoc, exists_and_left, eq_comm (b := name)]

theorem ofMeasure (h : p.Named measures slices wide) (v : String) :
    SeriesName.ofMeasure p.separator wide v =
      if v ∈ measures then slices.map (SeriesName.compose p.separator v) else [] := by
  have hdate : ((SeriesName.decompose? p.separator p.date).map (·.1) == some v) = false := by
    rw [SeriesName.decompose?_none h.date_plain]
    rfl
  rw [SeriesName.ofMeasure, h.names, List.filter_cons_of_neg (by simp [hdate]), List.filter_map]
  have hkeys : (measures ×ˢ slices).filter ((fun name =>
      (SeriesName.decompose? p.separator name).map (·.1) == some v) ∘
        fun key => SeriesName.compose p.separator key.1 key.2) =
      (measures ×ˢ slices).filter fun key => key.1 = v := by
    apply List.filter_congr
    intro key hkey
    rw [Function.comp_apply, h.decompose? (List.mem_product.1 hkey).1, Bool.eq_iff_iff]
    simp
  rw [hkeys, filter_fst_product h.measures_nodup]
  split_ifs
  · rw [List.map_map]
    rfl
  · rfl

theorem mem_ofMeasure_iff (h : p.Named measures slices wide) :
    name ∈ SeriesName.ofMeasure p.separator wide v ↔
      v ∈ measures ∧ ∃ s ∈ slices, name = SeriesName.compose p.separator v s := by
  rw [h.ofMeasure]
  split_ifs with hv
  · simp [hv, eq_comm]
  · simp [hv]

/-- The dates come first, and then the columns of the slice value, measure by measure. -/
theorem names_frameOf (h : p.Named measures slices wide) (hs : s ∈ slices) :
    (p.frameOf wide s).names = p.date :: measures.map (SeriesName.compose p.separator · s) := by
  have hfiltered : (p.frameOf wide s).names = wide.names.filter fun name =>
      name = p.date || SeriesName.slice? p.separator name == some s := by
    rw [Table.names, frameOf, Table.names, List.filter_map]
    rfl
  have hkeys : (measures ×ˢ slices).filter ((fun name =>
      name = p.date || SeriesName.slice? p.separator name == some s) ∘
        fun key => SeriesName.compose p.separator key.1 key.2) =
      (measures ×ˢ slices).filter fun key => key.2 = s := by
    apply List.filter_congr
    intro key hkey
    rw [Function.comp_apply, h.slice? (List.mem_product.1 hkey).1, Bool.eq_iff_iff]
    simp [SeriesName.compose_ne h.date_plain]
  rw [hfiltered, h.names, List.filter_cons_of_pos (by simp), List.filter_map, hkeys,
    filter_snd_product _ h.slices_nodup hs, List.map_map]
  rfl

/-- A frame can be had of every series, and is the part of its slice value. -/
theorem sliceFrame_ok_iff (h : p.Named measures slices wide) :
    SeriesName.sliceFrame p.separator wide p.date target = .ok frame ↔ ∃ m ∈ measures,
      ∃ s ∈ slices, target = SeriesName.compose p.separator m s ∧ frame = p.frameOf wide s := by
  have hfront : ∀ s, p.date :: wide.names.filter (SeriesName.slice? p.separator · == some s) =
      wide.names.filter fun name =>
        name = p.date || SeriesName.slice? p.separator name == some s := by
    intro s
    have hrest : p.date ∉ (measures ×ˢ slices).map fun key =>
        SeriesName.compose p.separator key.1 key.2 := by
      have hnodup := h.wellFormed.nodup
      rw [h.names] at hnodup
      exact (List.nodup_cons.1 hnodup).1
    rw [h.names, List.filter_cons_of_neg (by simp [h.slice?_date]),
      List.filter_cons_of_pos (by simp)]
    congr 1
    apply List.filter_congr
    intro name hname
    have hne : name ≠ p.date := fun heq => hrest (heq ▸ hname)
    simp [hne]
  have hselect : ∀ s, wide.select (p.date ::
      wide.names.filter (SeriesName.slice? p.separator · == some s)) = .ok (p.frameOf wide s) := by
    intro s
    have hsome := List.cons_ne_nil p.date
      (wide.names.filter (SeriesName.slice? p.separator · == some s))
    rw [hfront] at hsome ⊢
    exact Table.select_filter h.wellFormed hsome
  rw [SeriesName.sliceFrame_ok_iff]
  simp only [hselect]
  constructor
  · rintro ⟨hmem, slice, hslice, hframe⟩
    rcases h.mem_names_iff.1 hmem with rfl | ⟨m, hm, s, hs, rfl⟩
    · rw [h.slice?_date] at hslice
      cases hslice
    · rw [h.slice? hm] at hslice
      obtain rfl := Option.some.inj hslice
      exact ⟨m, hm, s, hs, rfl, (Except.ok.inj hframe).symm⟩
  · rintro ⟨m, hm, s, hs, rfl, rfl⟩
    exact ⟨h.mem_names_iff.2 (.inr ⟨m, hm, s, hs, rfl⟩), s, h.slice? hm s, rfl⟩

theorem existsUnique_measure (h : p.Named measures slices wide) (hname : name ∈ wide.names)
    (hne : name ≠ p.date) : ∃! v, name ∈ SeriesName.ofMeasure p.separator wide v := by
  obtain ⟨m, hm, s, hs, rfl⟩ := (h.mem_names_iff.1 hname).resolve_left hne
  refine ⟨m, h.mem_ofMeasure_iff.2 ⟨hm, s, hs, rfl⟩, fun v hv => ?_⟩
  obtain ⟨hv, s', -, heq⟩ := h.mem_ofMeasure_iff.1 hv
  exact (SeriesName.compose_inj (h.plain m hm) (h.plain v hv) heq).1.symm

theorem existsUnique_frame (h : p.Named measures slices wide) (hname : name ∈ wide.names)
    (hne : name ≠ p.date) : ∃! frame, (∃ target,
      SeriesName.sliceFrame p.separator wide p.date target = .ok frame) ∧ name ∈ frame.names := by
  obtain ⟨m, hm, s, hs, rfl⟩ := (h.mem_names_iff.1 hname).resolve_left hne
  refine ⟨p.frameOf wide s, ⟨⟨_, h.sliceFrame_ok_iff.2 ⟨m, hm, s, hs, rfl, rfl⟩⟩, ?_⟩, ?_⟩
  · rw [h.names_frameOf hs]
    exact List.mem_cons_of_mem _ (List.mem_map.2 ⟨m, hm, rfl⟩)
  · rintro frame ⟨⟨target, hframe⟩, hmem⟩
    obtain ⟨-, -, s', hs', -, rfl⟩ := h.sliceFrame_ok_iff.1 hframe
    rw [h.names_frameOf hs', List.mem_cons] at hmem
    obtain ⟨m', hm', heq⟩ := List.mem_map.1 (hmem.resolve_left hne)
    rw [(SeriesName.compose_inj (h.plain m' hm') (h.plain m hm) heq).2]

variable [Scalar α]

/-- What a series is explained with are the columns of other measures. -/
theorem covariate_apart (h : p.Named measures slices wide)
    (hname : name ∈ (namedCovariates p.separator frame v).map (·.1)) :
    name ∉ SeriesName.ofMeasure p.separator wide v := by
  intro hgroup
  obtain ⟨-, -, -, hmeasure, -⟩ := mem_namedCovariates.1 hname
  obtain ⟨hv, s, -, rfl⟩ := h.mem_ofMeasure_iff.1 hgroup
  exact hmeasure (h.measure hv s)

/-- A column of a frame that belongs to another measure and shows a number is a covariate. -/
theorem mem_covariates (h : p.Named measures slices wide) (hv : v ∈ measures)
    (hframe : SeriesName.sliceFrame p.separator wide p.date target = .ok frame)
    (hname : name ∈ frame.names) (hother : name ∉ SeriesName.ofMeasure p.separator wide v)
    {xs : List (Option α)} (hx : frame.numeric name = .ok xs)
    (hshown : ∃ row, Carry.shown xs row ≠ none) :
    name ∈ (namedCovariates p.separator frame v).map (·.1) := by
  obtain ⟨c, hc, hcells⟩ := Table.numeric_ok_iff.1 hx
  obtain ⟨hmem, hcname⟩ := Table.column?_some hc
  obtain ⟨values, hvalues⟩ := Carry.dense?_of_shown hshown
  refine mem_namedCovariates.2 ⟨c, hmem, hcname, ?_, xs, values, hcells, hvalues⟩
  obtain ⟨-, -, s, hs, -, rfl⟩ := h.sliceFrame_ok_iff.1 hframe
  rw [h.names_frameOf hs, List.mem_cons, List.mem_map] at hname
  rcases hname with rfl | ⟨m, hm, rfl⟩
  · have hdate : SeriesName.measure p.separator p.date = p.date := by
      rw [SeriesName.measure, SeriesName.decompose?_none h.date_plain]
      rfl
    rw [hdate]
    exact fun heq => h.date_ne (heq ▸ hv)
  · rw [h.measure hm]
    rintro rfl
    exact hother (h.mem_ofMeasure_iff.2 ⟨hv, s, hs, rfl⟩)

end Named

variable [Scalar α] {p : Pivot} {t wide : Table α}

/-- The distinct slice values of a long table in ascending order; the one of a table that is not
sliced stands for all rows. -/
def slices (p : Pivot) (t : Table α) : List String :=
  Axis.ascending (fun a b => decide (a < b)) (p.sliceValues t)

omit [Scalar α] in
theorem wholeColumns_names {date : Column α} {columns : List (Column α)}
    (h : p.wholeColumns t date = .ok columns) : columns.map (·.name) =
      date.name :: (p.spreadMeasures t).map (SeriesName.compose p.separator · SeriesName.whole) := by
  simp only [wholeColumns, bind_ok_iff, pure_ok_iff] at h
  obtain ⟨series, hseries, rfl⟩ := h
  rw [List.map_cons]
  congr 1
  apply map_eq_of_forall₂ (mapM_ok_iff.1 hseries)
  intro m c hread
  simp only [bind_ok_iff, pure_ok_iff] at hread
  obtain ⟨xs, -, rfl⟩ := hread
  rfl

theorem slicedColumns_names {slice : String} {date keys : Column α}
    (hkeys : t.column? slice = some keys) {columns : List (Column α)}
    (h : p.slicedColumns t slice date = .ok columns) : columns.map (·.name) =
      p.date :: (p.spreadMeasures t).flatMap fun m =>
        (sliceAxis keys.cells.labels).map (SeriesName.compose p.separator m) := by
  simp only [slicedColumns_eq, bind_ok_iff, Table.column_ok_iff, hkeys, Option.some.injEq,
    Except.ok.injEq] at h
  obtain ⟨times, -, _, rfl, series, hseries, rfl⟩ := h
  rw [List.map_cons, List.map_flatten, List.flatMap_def]
  congr 2
  apply map_eq_of_forall₂ (mapM_ok_iff.1 hseries)
  intro m group hread
  obtain ⟨xs, -, rfl⟩ := map_ok_iff.1 hread
  rw [seriesOf, List.map_map]
  rfl

/-- The columns that are spread, by name: the dates, and the measures under each slice value. -/
theorem columnsFor_names {date : Column α} (hdate : t.column? p.date = some date)
    {columns : List (Column α)} (h : p.columnsFor t date = .ok columns) :
    columns.map (·.name) = p.date :: (p.spreadMeasures t ×ˢ p.slices t).map fun key =>
      SeriesName.compose p.separator key.1 key.2 := by
  rw [map_product]
  unfold columnsFor at h
  cases hslice : p.slice with
  | none =>
    rw [hslice] at h
    have hwhole : p.slices t = [SeriesName.whole] := by
      rw [slices, sliceValues, hslice]
      rfl
    rw [wholeColumns_names h, (Table.column?_some hdate).2, hwhole, List.map_eq_flatMap]
    rfl
  | some slice =>
    rw [hslice] at h
    obtain ⟨keys, hkeys⟩ : ∃ keys, t.column? slice = some keys := by
      simp only [slicedColumns_eq, bind_ok_iff, Table.column_ok_iff] at h
      obtain ⟨-, -, keys, hkeys, -⟩ := h
      exact ⟨keys, hkeys⟩
    have haxis : p.slices t = sliceAxis keys.cells.labels := by
      simp only [slices, sliceValues, hslice, hkeys]
      rfl
    rw [slicedColumns_names hkeys h, haxis]

theorem spread_named (h : p.spread t = .ok wide) (hdate : p.separator ∉ p.date.toList)
    (hmeasures : ∀ m ∈ p.spreadMeasures t, p.separator ∉ m.toList) :
    p.Named (p.spreadMeasures t).eraseDups (p.slices t) wide := by
  have hplain : ∀ m ∈ (p.spreadMeasures t).eraseDups, p.separator ∉ m.toList := fun m hm =>
    hmeasures m (List.mem_eraseDups.1 hm)
  have hslices : (p.slices t).Nodup := Axis.nodup_ascending Axis.strict_lt _
  have hwide := (spread_wide h).1.wellFormed
  simp only [spread_eq, bind_ok_iff, Table.column_ok_iff] at h
  obtain ⟨date, hcolumn, columns, hcolumns, start, hstart, hclosed⟩ := h
  obtain ⟨-, -, hnames⟩ := closedIf_keeps (Table.wellFormed_ofColumns hstart) hclosed
  have hfresh : p.date ∉ (p.spreadMeasures t ×ˢ p.slices t).map fun key =>
      SeriesName.compose p.separator key.1 key.2 := by
    intro hmem
    obtain ⟨key, -, heq⟩ := List.mem_map.1 hmem
    exact SeriesName.compose_ne hdate heq
  have hapart : ∀ a ∈ p.spreadMeasures t ×ˢ p.slices t, ∀ b ∈ p.spreadMeasures t ×ˢ p.slices t,
      SeriesName.compose p.separator a.1 a.2 = SeriesName.compose p.separator b.1 b.2 → a = b := by
    intro a ha b hb heq
    obtain ⟨hm, hs⟩ := SeriesName.compose_inj (hmeasures _ (List.mem_product.1 ha).1)
      (hmeasures _ (List.mem_product.1 hb).1) heq
    exact Prod.ext hm hs
  refine ⟨hwide, ?_, hdate, hplain, ?_, nodup_eraseDups _, hslices⟩
  · rw [hnames, Table.ofColumns_names_eq hstart, columnsFor_names hcolumn hcolumns,
      List.eraseDups_cons, List.filter_eq_self.2, eraseDups_map hapart, eraseDups_product _ hslices]
    intro name hname
    have hne : name ≠ p.date := fun heq => hfresh (heq ▸ hname)
    simpa using hne
  · intro hmem
    exact (mem_spreadMeasures.1 (List.mem_eraseDups.1 hmem)).2.1 rfl

structure Groups (p : Pivot) (measures slices : List String) (wide : Table α) : Prop where
  names : wide.names =
    p.date :: (measures ×ˢ slices).map fun key => SeriesName.compose p.separator key.1 key.2
  group : ∀ v, SeriesName.ofMeasure p.separator wide v =
    if v ∈ measures then slices.map (SeriesName.compose p.separator v) else []
  frame : ∀ v ∈ measures, ∀ s ∈ slices, ∃ frame,
    SeriesName.sliceFrame p.separator wide p.date (SeriesName.compose p.separator v s) =
      .ok frame ∧
    frame.names = p.date :: measures.map (SeriesName.compose p.separator · s) ∧
    frame.columns.Sublist wide.columns ∧ frame.rowCount = wide.rowCount
  one_group : ∀ name ∈ wide.names, name ≠ p.date →
    ∃! v, name ∈ SeriesName.ofMeasure p.separator wide v
  one_frame : ∀ name ∈ wide.names, name ≠ p.date → ∃! frame, (∃ target,
    SeriesName.sliceFrame p.separator wide p.date target = .ok frame) ∧ name ∈ frame.names
  apart : ∀ v target frame, SeriesName.sliceFrame p.separator wide p.date target = .ok frame →
    ∀ name ∈ (namedCovariates p.separator frame v).map (·.1),
      name ∉ SeriesName.ofMeasure p.separator wide v
  covariates : ∀ v ∈ measures, ∀ target frame,
    SeriesName.sliceFrame p.separator wide p.date target = .ok frame → ∀ name ∈ frame.names,
      name ∉ SeriesName.ofMeasure p.separator wide v → ∀ xs, frame.numeric name = .ok xs →
        (∃ row, Carry.shown xs row ≠ none) →
          name ∈ (namedCovariates p.separator frame v).map (·.1)

/-- The columns of a wide table are told apart by name: each of them but the dates belongs to one measure
and to one slice value, whatever stands in the slice values. -/
theorem spread_groups (h : p.spread t = .ok wide) (hdate : p.separator ∉ p.date.toList)
    (hmeasures : ∀ m ∈ p.spreadMeasures t, p.separator ∉ m.toList) :
    p.Groups (p.spreadMeasures t).eraseDups (p.slices t) wide := by
  have hnamed := spread_named h hdate hmeasures
  constructor
  case names => exact hnamed.names
  case group => exact hnamed.ofMeasure
  case frame =>
    intro v hv s hs
    exact ⟨p.frameOf wide s, hnamed.sliceFrame_ok_iff.2 ⟨v, hv, s, hs, rfl, rfl⟩,
      hnamed.names_frameOf hs, List.filter_sublist, rfl⟩
  case one_group =>
    intro name hname hne
    exact hnamed.existsUnique_measure hname hne
  case one_frame =>
    intro name hname hne
    exact hnamed.existsUnique_frame hname hne
  case apart =>
    intro v target frame _ name hname
    exact hnamed.covariate_apart hname
  case covariates =>
    intro v hv target frame hframe name hname hother xs hx hshown
    exact hnamed.mem_covariates hv hframe hname hother hx hshown

def siteCatches : Pivot where
  date := "date"
  slice := some "site"
  measures := none
  target := "adults"
  fillCovariates := true
  separator := '!'

/-- The sites have no name, the name of a measure, and a name with separators in it. -/
def siteRows : Table (Exact ℚ) where
  columns := [
    ⟨"date", .datetime ([1, 1, 2, 2].map fun day =>
      some (Calendar.Date.midnight ⟨2024, 6, day⟩))⟩,
    ⟨"site", .categorical [some "traps", some "", some "!traps!", some ""]⟩,
    ⟨"traps", .numeric [some (.number 1), some (.number 4), some (.number 2), none]⟩,
    ⟨"adults", .numeric [none, some (.number 7), some (.number 2), some .nan]⟩]
  rowCount := 4

/-- The traps of the site that is named after them are in its frame, and not among the adults. -/
theorem siteRows_grouped : (∃ wide, siteCatches.spread siteRows = .ok wide ∧
      siteCatches.Groups ["traps", "adults"] ["", "!traps!", "traps"] wide ∧
      SeriesName.ofMeasure '!' wide "adults" = ["adults!", "adults!!traps!", "adults!traps"]) ∧
    siteCatches.separator ∉ siteCatches.date.toList ∧
    ∀ m ∈ siteCatches.spreadMeasures siteRows, siteCatches.separator ∉ m.toList := by
  have hmeasures : siteCatches.spreadMeasures siteRows = ["traps", "adults"] := by decide +kernel
  have hslices : siteCatches.slices siteRows = ["", "!traps!", "traps"] := by decide +kernel
  have hdate : siteCatches.separator ∉ siteCatches.date.toList := by decide
  have hplain : ∀ m ∈ siteCatches.spreadMeasures siteRows, siteCatches.separator ∉ m.toList := by
    rw [hmeasures]
    decide
  have hfits : siteCatches.Fits siteRows := by
    refine ⟨?_, ⟨_, _, rfl, rfl⟩, fun slice hslice => ?_⟩
    · simp [Table.Rectangular, siteRows, Column.length, Cells.length]
    · obtain rfl := Option.some.inj hslice
      exact ⟨_, rfl⟩
  obtain ⟨wide, hwide, -⟩ := spread_total hfits
  have hgroups := spread_groups hwide hdate hplain
  rw [hmeasures, hslices] at hgroups
  have hdistinct : ["traps", "adults"].eraseDups = ["traps", "adults"] := by decide
  rw [hdistinct] at hgroups
  exact ⟨⟨wide, hwide, hgroups, (hgroups.group "adults").trans (by decide)⟩, hdate, hplain⟩

end Pivot

end Infill
