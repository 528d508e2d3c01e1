import Infill.Proofs.Impute.InRange
import Infill.Proofs.Run.Filling
import Infill.Proofs.Table.Spread
import Infill.Scalar.Double

/-! A run on a table of the right shape gives a report, whatever its roster, its settings and its
data. The wide table has a series of the target, every series is a column of numbers, and what a
family cannot do it tells in its record. -/

namespace Infill

variable {α : Type} [Scalar α]

namespace Run

open Table

omit [Scalar α] in
theorem length_blankLast (n : Nat) (values : List (Option α)) :
    (blankLast n values).length = values.length := by
  simp only [blankLast, List.length_append, List.length_take, List.length_replicate]
  omega

omit [Scalar α] in
theorem heldBack_total {r : Request α} {wide : Table α} {date : String} (hw : wide.Wide date)
    (hd : r.settings.separator ∉ date.toList) :
    ∃ w, heldBack r wide = .ok w ∧ w.Wide date ∧ w.names = wide.names := by
  unfold heldBack
  cases r.nullifyLast with
  | none => exact ⟨wide, rfl, hw, rfl⟩
  | some n =>
    refine foldlM_total (fun s : Table α => s.Wide date ∧ s.names = wide.names) ?_ ⟨hw, rfl⟩
    rintro s name hname ⟨hs, hnames⟩
    have hmem : name ∈ s.names := hnames ▸ (SeriesName.mem_ofMeasure.1 hname).1
    obtain ⟨s', hs', hwide, heq⟩ := hs.update_total hmem (Wide.series_ne_date hd hname)
      (length_blankLast n)
    exact ⟨s', hs', hwide, heq.trans hnames⟩

/-- A wide table on which the time-aware families can work: it has a series of the target. -/
structure Ready (r : Request α) (date : String) (wide : Table α) : Prop where
  shape : wide.Wide date
  separator : r.settings.separator ∉ date.toList
  series : SeriesName.ofMeasure r.settings.separator wide r.target ≠ []

section Families

variable {r : Request α} {date : String} {wide : Table α}

omit [Scalar α] in
theorem Ready.numericAt (h : Ready r date wide) :
    wide.NumericAt (SeriesName.ofMeasure r.settings.separator wide r.target) :=
  h.shape.series_numeric h.separator r.target

theorem fillFrame_total {frame : Table α} {series : String} {xs : List (Option α)}
    (h : frame.numeric series = .ok xs) (model : Family) (w : Windows) :
    ∃ result, fillFrame r model frame series w = .ok result := by
  have byTree : ∀ kind, ∃ result, (do
      return (← TreeFill.train frame series kind w.test w.accuracy r.settings,
        frame.columns.length - 2) : Except Error (Imputation α × Nat)) = .ok result := by
    intro kind
    obtain ⟨i, hi⟩ := TreeFill.train_total h kind w.test w.accuracy r.settings
    exact ⟨(i, frame.columns.length - 2), bind_ok_iff.2 ⟨i, hi, rfl⟩⟩
  unfold fillFrame
  split
  · exact SeriesFill.Single.train_total h w.test w.accuracy r.settings
  · exact byTree _
  · exact byTree _

/-- What families of time series read of a wide table and of its frames is there. -/
theorem Ready.samples_inRange (h : Ready r date wide) {targets : List String} {measure : String}
    {s : SeriesFill.Sample α} :
    (SeriesFill.Sample.ofTable r.settings.separator wide targets measure = .ok s → s.InRange) ∧
      ∀ series frame, SeriesName.sliceFrame r.settings.separator wide date series = .ok frame →
        SeriesFill.Sample.ofTable r.settings.separator frame targets measure = .ok s →
          s.InRange := by
  refine ⟨SeriesFill.Sample.ofTable_inRange h.shape.wellFormed.rectangular, ?_⟩
  intro series frame hframe
  obtain ⟨-, slice, -, hselect⟩ := SeriesName.sliceFrame_ok_iff.1 hframe
  obtain ⟨columns, -, hcolumns⟩ := bind_ok_iff.1 hselect
  exact SeriesFill.Sample.ofTable_inRange (wellFormed_ofColumns hcolumns).rectangular

omit [Scalar α] in
/-- The frame of a series of the target shows that series. -/
theorem Ready.frame (h : Ready r date wide) {series : String}
    (hs : series ∈ SeriesName.ofMeasure r.settings.separator wide r.target) :
    ∃ frame xs, SeriesName.sliceFrame r.settings.separator wide date series = .ok frame ∧
      frame.numeric series = .ok xs := by
  obtain ⟨xs, hx⟩ := h.numericAt series hs
  obtain ⟨c, hc, hcells⟩ := numeric_ok_iff.1 hx
  obtain ⟨slice, hslice⟩ := SeriesName.slice?_of_mem_ofMeasure hs
  have hnames : ∀ name ∈ date :: wide.names.filter
      (fun n => SeriesName.slice? r.settings.separator n == some slice), name ∈ wide.names := by
    intro name hname
    rcases List.mem_cons.1 hname with rfl | hname
    · exact h.shape.dated
    · exact (List.mem_filter.1 hname).1
  obtain ⟨frame, hsel⟩ := select_total h.shape.wellFormed.rectangular hnames
  have hframe : SeriesName.sliceFrame r.settings.separator wide date series = .ok frame :=
    SeriesName.sliceFrame_ok_iff.2 ⟨(SeriesName.mem_ofMeasure.1 hs).1, slice, hslice, hsel⟩
  have hcol : frame.column? series = some c := (SeriesName.sliceFrame_column? hframe).trans hc
  exact ⟨frame, xs, hframe, numeric_ok_iff.2 ⟨c, hcol, hcells⟩⟩

omit [Scalar α] in
theorem writeCells_total {names : List String} {series : String} (hs : series ∈ names)
    {cells : List (FilledCell α)} (hcells : ∀ c ∈ cells, c.column = series) {t : Table α}
    (ht : t.NumericAt names) :
    ∃ t', cells.foldlM writeCell t = .ok t' ∧ t'.NumericAt names := by
  refine foldlM_total (fun t : Table α => t.NumericAt names) (fun t c hc ht => ?_) ht
  obtain ⟨xs, hx⟩ := ht series hs
  obtain ⟨t', ht'⟩ := update_total hx (·.set c.row (some c.value))
  rw [← hcells c hc] at ht'
  exact ⟨t', ht', ht.update ht'⟩

theorem fillSeries_total (h : Ready r date wide) (model : Family) (w : Windows)
    {progress : Progress α} {series : String}
    (hs : series ∈ SeriesName.ofMeasure r.settings.separator wide r.target)
    (hp : progress.2.NumericAt (SeriesName.ofMeasure r.settings.separator wide r.target)) :
    ∃ progress', fillSeries r model wide date w progress series = .ok progress' ∧
      progress'.2.NumericAt (SeriesName.ofMeasure r.settings.separator wide r.target) := by
  obtain ⟨frame, xs, hframe, hx⟩ := h.frame hs
  obtain ⟨⟨i, exog⟩, hi⟩ := fillFrame_total hx model w
  have hfilled : ∀ c ∈ i.filled.getD [], c.column = series := by
    intro c hc
    cases hcells : i.filled with
    | none => simp [hcells] at hc
    | some cells =>
      rw [hcells] at hc
      exact ((fillFrame_writes hi).filled cells hcells c hc).1
  obtain ⟨table, htable, hnum⟩ := writeCells_total hs hfilled hp
  obtain ⟨c, hc⟩ := exists_column (SeriesName.mem_ofMeasure.1 hs).1
  have hmissing : wide.missingCount series = .ok c.cells.missingCount :=
    bind_ok_iff.2 ⟨c, column_ok_iff.2 hc, rfl⟩
  by_cases hzero : c.cells.missingCount = 0
  · exact ⟨progress, fillSeries_ok_iff.2 ⟨_, hmissing, by rw [if_pos hzero]⟩, hp⟩
  · refine ⟨(progress.1 ++ [seriesRecord r model series i c.cells.missingCount frame.rowCount exog],
      table), fillSeries_ok_iff.2 ⟨_, hmissing, ?_⟩, hnum⟩
    rw [if_neg hzero]
    exact ⟨frame, hframe, i, exog, hi, table, htable, rfl⟩

theorem perSeries_total (h : Ready r date wide) (model : Family) (w : Windows) :
    ∃ progress, perSeries r model wide date w = .ok progress := by
  obtain ⟨progress, hp, -⟩ := foldlM_total
    (fun p : Progress α => p.2.NumericAt (SeriesName.ofMeasure r.settings.separator wide r.target))
    (fun _ _ hs hp => fillSeries_total h model w hs hp) (s := ([], wide)) h.numericAt
  exact ⟨progress, hp⟩

theorem jointly_total (h : Ready r date wide) (w : Windows) :
    ∃ progress, jointly r wide w = .ok progress := by
  obtain ⟨⟨i, dims⟩, hi⟩ := SeriesFill.Joint.train_total h.series h.numericAt w.test w.accuracy
  obtain ⟨rows, hrows⟩ : ∃ rows, rowsMissing r.settings.separator wide r.target = .ok rows := by
    have heach : ∀ name ∈ SeriesName.ofMeasure r.settings.separator wide r.target,
        ∃ rows, wide.missingRows name = .ok rows :=
      fun name hname => missingRows_total (SeriesName.mem_ofMeasure.1 hname).1
    obtain ⟨rows, hrows⟩ := mapM_total heach
    exact ⟨_, bind_ok_iff.2 ⟨rows, hrows, rfl⟩⟩
  simp only [jointly, bind_ok_iff, pure_ok_iff]
  exact ⟨_, (i, dims), hi, rows, hrows, rfl⟩

theorem timeAware_total (h : Ready r date wide) (slice : Option String) (distinct : Nat)
    (model : Family) : ∃ c, timeAware r wide date slice distinct model = .ok c := by
  by_cases hidle : model = .multivariate ∧ distinct ≤ 1
  · obtain ⟨rfl, hone⟩ := hidle
    exact ⟨none, timeAware_idle r wide date slice hone⟩
  obtain ⟨progress, hp⟩ : ∃ progress, fillWide r wide date model = .ok progress := by
    unfold fillWide
    dsimp only
    split_ifs
    · exact jointly_total h _
    · exact perSeries_total h model _
  have hfill := fillWide_fills hp
  have hseries : SeriesName.ofMeasure r.settings.separator progress.2 r.target =
      SeriesName.ofMeasure r.settings.separator wide r.target :=
    SeriesName.ofMeasure_congr hfill.names_eq _ _
  obtain ⟨long, hlong⟩ := Pivot.gather_total (h.shape.fills hfill) h.separator slice
    (hseries ▸ h.series)
  exact ⟨_, (timeAware_ok_iff hidle).2 ⟨progress, hp, long, hlong, rfl⟩⟩

theorem timeAgnostic_total {t : Table α} {xs : List (Option α)} (h : t.numeric r.target = .ok xs)
    (missing : Nat) (model : Family) : ∃ c, timeAgnostic r t missing model = .ok c := by
  obtain ⟨i, hi⟩ := TreeFill.train_total h
    (if model = .decisionTree then TreeKind.decisionTree else TreeKind.randomForest)
    (windowsOf r.settings t.rowCount).test (windowsOf r.settings t.rowCount).accuracy r.settings
  exact ⟨_, bind_ok_iff.2 ⟨i, hi, rfl⟩⟩

end Families

/-- The table, its target and its keys go together. -/
structure Admissible (t : Table α) (r : Request α) : Prop where
  nonempty : t.rowCount ≠ 0
  rectangular : t.Rectangular
  numeric : ∃ xs, t.numeric r.target = .ok xs
  unkeyed : r.target ∉ r.keys
  notIndex : r.target ≠ "index"
  separator : r.settings.separator ∉ r.target.toList
  /-- The dates can be read. -/
  dates : ∀ date g, (rolesOf r).date = some (date, g) →
    r.settings.separator ∉ date.toList ∧ ∃ c d, t.column? date = some c ∧ c.parseDates g = .ok d
  /-- Some row belongs to a slice. -/
  slices : (rolesOf r).date ≠ none → ∀ slice, (rolesOf r).slice = some slice →
    ∃ c row, t.column? slice = some c ∧ c.cells.isMissing row = false

theorem mem_labels_of_present {cells : Cells α} {row : Nat} (h : cells.isMissing row = false) :
    ∃ label, some label ∈ cells.labels := by
  cases cells with
  | numeric xs =>
    obtain ⟨x, hx⟩ := Option.isSome_iff_exists.1 (by simpa [Cells.isMissing] using h)
    obtain ⟨cell, hcell, hobs⟩ := Option.bind_eq_some_iff.1 hx
    refine ⟨Scalar.text x, List.mem_map.2 ⟨cell, List.mem_of_getElem? hcell, ?_⟩⟩
    rw [Cells.numberLabel, hobs]
    rfl
  | categorical xs =>
    obtain ⟨x, hx⟩ := Option.isSome_iff_exists.1 (by simpa [Cells.isMissing] using h)
    exact ⟨x, List.mem_of_getElem? (Option.join_eq_some_iff.1 hx)⟩
  | datetime xs =>
    obtain ⟨x, hx⟩ := Option.isSome_iff_exists.1 (by simpa [Cells.isMissing] using h)
    have hmem : some x ∈ xs := List.mem_of_getElem? (Option.join_eq_some_iff.1 hx)
    exact ⟨x.text, List.mem_map.2 ⟨some x, hmem, rfl⟩⟩

namespace Admissible

variable {t parsed : Table α} {r : Request α}

theorem target_ne_date (h : Admissible t r) {date : String} {g : Calendar.Granularity}
    (hdate : (rolesOf r).date = some (date, g)) : r.target ≠ date := by
  rintro rfl
  exact h.unkeyed (KeyRoles.pick_date_mem hdate)

theorem numeric_parsed (h : Admissible t r) (hp : t.DatesRead (rolesOf r).date parsed) :
    ∃ xs, parsed.numeric r.target = .ok xs := by
  rw [hp.numeric_other fun _ _ hdate => h.target_ne_date hdate]
  exact h.numeric

theorem target_spread (h : Admissible t r) (hp : t.DatesRead (rolesOf r).date parsed)
    {date : String} {g : Calendar.Granularity} (hdate : (rolesOf r).date = some (date, g)) :
    r.target ∈ (pivotOf r parsed (rolesOf r) date).spreadMeasures parsed := by
  obtain ⟨xs, hx⟩ := h.numeric_parsed hp
  obtain ⟨c, hc, -⟩ := numeric_ok_iff.1 hx
  refine Pivot.mem_spreadMeasures.2 ⟨?_, h.target_ne_date hdate, ?_, h.notIndex, xs, hx⟩
  · exact List.mem_filter.2 ⟨name_mem_of_column? hc, by simpa using h.unkeyed⟩
  · intro hslice
    exact h.unkeyed (KeyRoles.pick_slice_mem hslice.symm).1

theorem slice_present (h : Admissible t r) (hp : t.DatesRead (rolesOf r).date parsed)
    {date : String} {g : Calendar.Granularity} (hdate : (rolesOf r).date = some (date, g)) :
    ∃ s, s ∈ (pivotOf r parsed (rolesOf r) date).sliceValues parsed := by
  unfold Pivot.sliceValues pivotOf
  dsimp only
  cases hslice : (rolesOf r).slice with
  | none => exact ⟨SeriesName.whole, by simp⟩
  | some slice =>
    obtain ⟨c, row, hc, hpresent⟩ := h.slices (by simp [hdate]) slice hslice
    obtain ⟨label, hlabel⟩ := mem_labels_of_present hpresent
    have hc' : parsed.column? slice = some c :=
      (hp.column?_other (KeyRoles.pick_slice_mem hslice).2).trans hc
    exact ⟨label, by simpa [hc'] using hlabel⟩

theorem wideTable_ready (h : Admissible t r) (hp : t.DatesRead (rolesOf r).date parsed)
    {date : String} {g : Calendar.Granularity} (hdate : (rolesOf r).date = some (date, g)) :
    ∃ wide, wideTable r parsed (rolesOf r) date = .ok wide ∧ Ready r date wide := by
  have hsep := (h.dates date g hdate).1
  have hfits : (pivotOf r parsed (rolesOf r) date).Fits parsed := by
    refine ⟨hp.rectangular h.rectangular, (hdate ▸ hp).times, fun slice hslice => ?_⟩
    obtain ⟨c, -, hc, -⟩ := h.slices (by simp [hdate]) slice hslice
    exact ⟨c, (hp.column?_other (KeyRoles.pick_slice_mem hslice).2).trans hc⟩
  obtain ⟨spread, hspread, hwide, hseries⟩ := Pivot.spread_total hfits
  obtain ⟨wide, hheld, hwide', hnames⟩ := heldBack_total (r := r) hwide hsep
  obtain ⟨s, hs⟩ := h.slice_present hp hdate
  have hmem := hseries r.target (h.target_spread hp hdate) s hs
  refine ⟨wide, ?_, hwide', hsep, ?_⟩
  · rw [wideTable_eq]
    exact bind_ok_iff.2 ⟨spread, hspread, hheld⟩
  refine List.ne_nil_of_mem (SeriesName.mem_ofMeasure.2 ⟨hnames ▸ hmem, s, ?_⟩)
  exact SeriesName.decompose?_compose h.separator s

end Admissible

theorem timePart_total {r : Request α} {t parsed : Table α} (h : Admissible t r)
    (hp : t.DatesRead (rolesOf r).date parsed) (fs : List Family) :
    ∃ time, timePart r parsed (rolesOf r) fs = .ok time := by
  cases hdate : (rolesOf r).date with
  | none => exact ⟨_, timePart_undated hdate⟩
  | some key =>
    obtain ⟨wide, hwide, hready⟩ := h.wideTable_ready hp hdate
    obtain ⟨contributions, hc⟩ := mapM_total fun f (_ : f ∈ fs.filter (·.isTimeAware)) =>
      timeAware_total hready (rolesOf r).slice (distinctSlices parsed (rolesOf r).slice) f
    exact ⟨_, (timePart_dated_ok_iff hdate).2 ⟨wide, hwide, contributions, hc, rfl⟩⟩

theorem rowPart_total {r : Request α} {t : Table α} {xs : List (Option α)}
    (h : t.numeric r.target = .ok xs) (fs : List Family) :
    ∃ rows, rowPart r t fs = .ok rows := by
  obtain ⟨c, hc, -⟩ := numeric_ok_iff.1 h
  obtain ⟨contributions, hcs⟩ := mapM_total fun f (_ : f ∈ fs.filter (!·.isTimeAware)) =>
    timeAgnostic_total h c.cells.missingCount f
  have hmissing : t.missingCount r.target = .ok c.cells.missingCount :=
    bind_ok_iff.2 ⟨c, column_ok_iff.2 hc, rfl⟩
  exact ⟨_, rowPart_ok_iff.2 ⟨_, hmissing, contributions, hcs, rfl⟩⟩

theorem Admissible.run {t : Table α} {r : Request α} (h : Admissible t r) (roster : List String) :
    ∃ report, predict t roster r = .ok report := by
  obtain ⟨parsed, hparsed⟩ := withDates_total h.rectangular
    fun name g hdate => (h.dates name g hdate).2
  have hp := withDates_reads hparsed
  obtain ⟨xs, hx⟩ := h.numeric_parsed hp
  obtain ⟨time, htime⟩ := timePart_total h hp (families roster)
  obtain ⟨rows, hrows⟩ := rowPart_total hx (families roster)
  exact ⟨_, predict_ok_iff.2 ⟨h.nonempty, parsed, hparsed, time, htime, rows, hrows, rfl⟩⟩

/-- Whatever happens inside, the run ends with a report. Lists are read by operations that give something
for every place, so that no place which is not there would stop the run: that all of them are there is
said of the samples in `Ready.samples_inRange` and `TreeFill.Sample.ofTable_encoded`, and of the fits
in `Arma.strictEstimate_eq` and `Varmax.strictFit_eq`. -/
theorem predict_contained {t : Table α} {r : Request α} (h : Admissible t r)
    (roster : List String) : ∃ report, predict t roster r = .ok report :=
  h.run roster

/-- Yearly captures in two provinces. One row has no date. -/
def captures : Table Float where
  columns := [
    ⟨"year", .categorical
      [some "2019", some "2019", some "2020", some "2020", some "2021", none]⟩,
    ⟨"province", .categorical
      [some "BO", some "RA", some "BO", some "RA", some "BO", some "RA"]⟩,
    ⟨"traps", .numeric [some 4.0, some 2.0, none, some 3.0, some 5.0, some 1.0]⟩,
    ⟨"adults", .numeric [some 10.0, some 7.0, none, some 9.0, some 12.0, none]⟩]
  rowCount := 6

def capturesRequest : Request Float where
  keys := ["year", "province"]
  target := "adults"
  nullifyLast := some 1
  executionId := "captures"
  settings := .standard

def counted (traps adults : List (Option Float)) : Table Float where
  columns := captures.columns.take 2 ++ [⟨"traps", .numeric traps⟩, ⟨"adults", .numeric adults⟩]
  rowCount := 6

theorem counted_admissible {traps adults : List (Option Float)} (htraps : traps.length = 6)
    (hadults : adults.length = 6) : Admissible (counted traps adults) capturesRequest where
  nonempty := by simp [counted]
  rectangular := by
    simp [Rectangular, counted, captures, Column.length, Cells.length, htraps, hadults]
  numeric := ⟨_, rfl⟩
  unkeyed := by decide
  notIndex := by decide
  separator := by decide
  dates := by
    intro date g hdate
    have hyear : some ("year", Calendar.Granularity.year) = some (date, g) := hdate
    obtain ⟨rfl, rfl⟩ := Prod.mk.inj (Option.some.inj hyear)
    exact ⟨by decide, _, _, rfl, rfl⟩
  slices := by
    intro _ slice hslice
    have hprovince : some "province" = some slice := hslice
    obtain rfl := Option.some.inj hprovince
    exact ⟨_, 0, rfl, rfl⟩

theorem captures_admissible : Admissible captures capturesRequest :=
  counted_admissible rfl rfl

theorem captures_run (roster : List String) :
    ∃ report, predict captures roster capturesRequest = .ok report :=
  captures_admissible.run roster

theorem captures_contained : Admissible captures capturesRequest ∧
    ∃ report, predict captures ["multivariateTS", "unheard", "randomForest", "univariateTS"]
      capturesRequest = .ok report :=
  ⟨captures_admissible, predict_contained captures_admissible _⟩

end Run

end Infill
