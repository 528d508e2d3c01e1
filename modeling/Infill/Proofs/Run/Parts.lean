import Infill.Proofs.Table.Dates
import Infill.Run

/-! What a successful run consists of: its date column is read, its table is spread if it has dates,
and every family of the roster makes its contribution or, for want of a second slice, none. -/

namespace Infill

variable {α : Type} [Scalar α]

namespace KeyRoles

theorem pick_date_mem {keywords : List DateKeyword} {keys : List String} {date : String}
    {g : Calendar.Granularity} (h : (pick keywords keys).date = some (date, g)) : date ∈ keys := by
  obtain ⟨k, -, hk⟩ := List.exists_of_findSome?_eq_some h
  simp only [keyHolding, Option.map_eq_some_iff, Prod.mk.injEq] at hk
  obtain ⟨key, hkey, rfl, -⟩ := hk
  exact List.mem_of_find?_eq_some hkey

theorem pick_slice_mem {keywords : List DateKeyword} {keys : List String} {slice : String}
    (h : (pick keywords keys).slice = some slice) :
    slice ∈ keys ∧ ∀ date g, (pick keywords keys).date = some (date, g) → slice ≠ date := by
  refine ⟨List.mem_of_find?_eq_some h, fun date g hdate => ?_⟩
  have hdate : keywords.findSome? (keyHolding keys) = some (date, g) := hdate
  have hne := List.find?_some h
  simpa [hdate] using hne

end KeyRoles

namespace Run

def families (roster : List String) : List Family := roster.filterMap Family.ofName?

def rolesOf (r : Request α) : KeyRoles := KeyRoles.pick r.settings.dateKeywords r.keys

def joined (time rows : Report α) : Report α where
  metrics := time.metrics ++ rows.metrics
  timings := time.timings ++ rows.timings
  wide := time.wide
  imputed := time.imputed ++ rows.imputed

theorem predict_eq (t : Table α) (roster : List String) (r : Request α) :
    predict t roster r = if t.rowCount = 0 then .error .emptyData else
      withDates t (rolesOf r).date >>= fun parsed =>
        timePart r parsed (rolesOf r) (families roster) >>= fun time =>
          rowPart r parsed (families roster) >>= fun rows => .ok (joined time rows) := by
  unfold predict
  split_ifs <;> rfl

theorem predict_ok_iff {t : Table α} {roster : List String} {r : Request α} {report : Report α} :
    predict t roster r = .ok report ↔ t.rowCount ≠ 0 ∧
      ∃ parsed, withDates t (rolesOf r).date = .ok parsed ∧
      ∃ time, timePart r parsed (rolesOf r) (families roster) = .ok time ∧
      ∃ rows, rowPart r parsed (families roster) = .ok rows ∧ joined time rows = report := by
  rw [predict_eq]
  split_ifs with hempty
  · simp [hempty]
  · simp only [bind_ok_iff, Except.ok.injEq, ne_eq, hempty, not_false_iff, true_and]

theorem withDates_reads {t parsed : Table α} {date : Option (String × Calendar.Granularity)}
    (h : withDates t date = .ok parsed) : t.DatesRead date parsed := by
  unfold withDates at h
  split at h
  · obtain rfl := pure_ok_iff.1 h
    exact .undated t
  rename_i name g
  simp only [bind_ok_iff] at h
  obtain ⟨c, hc, d, hd, h⟩ := h
  have hc := Table.column_ok_iff.1 hc
  obtain ⟨before, after, heq, hb⟩ := Table.column?_split hc
  obtain rfl := (Table.column?_some hc).2
  have hname := (Column.parseDates_ok hd).1
  rcases Table.setColumn_ok_iff.1 h with ⟨he, -⟩ | ⟨-, -, rfl⟩
  · simp [he] at heq
  · rw [heq, Table.place_of_split hb hname]
    have hread : Table.DatesRead (some (c.name, g)) ⟨before ++ c :: after, t.rowCount⟩
        ⟨before ++ d :: after, t.rowCount⟩ := .dated t.rowCount hb hd
    rwa [← heq] at hread

def pivotOf (r : Request α) (t : Table α) (roles : KeyRoles) (date : String) : Pivot where
  date := date
  slice := roles.slice
  measures := some (t.names.filter fun name => !r.keys.contains name)
  target := r.target
  fillCovariates := r.settings.fillCovariates
  separator := r.settings.separator

/-- A wide table with the rows blanked that a request holds back. -/
def heldBack (r : Request α) (wide : Table α) : Except Error (Table α) :=
  match r.nullifyLast with
  | none => .ok wide
  | some n => (SeriesName.ofMeasure r.settings.separator wide r.target).foldlM
      (fun t name => t.update name (blankLast n)) wide

omit [Scalar α] in
/-- Blanking stops at the first series that cannot be blanked. -/
theorem foldlM_blank (n : Nat) (names : List String) (t : Table α) :
    names.foldlM (fun t name => t.update name (blankLast n)) t =
      match blankSeries n names t with
      | (blanked, none) => .ok blanked
      | (_, some e) => .error e := by
  induction names generalizing t with
  | nil => rfl
  | cons name names ih =>
    rw [List.foldlM_cons, blankSeries]
    cases t.update name (blankLast n) with
    | error e => rfl
    | ok t' => exact ih t'

theorem wideTable_eq (r : Request α) (t : Table α) (roles : KeyRoles) (date : String) :
    wideTable r t roles date = (pivotOf r t roles date).spread t >>= heldBack r := by
  unfold wideTable heldBack
  refine congrArg _ (funext fun wide => ?_)
  cases r.nullifyLast with
  | none => rfl
  | some n =>
    dsimp only
    rw [foldlM_blank]
    rfl

theorem withDates_total {t : Table α} (ht : t.Rectangular)
    {date : Option (String × Calendar.Granularity)}
    (h : ∀ name g, date = some (name, g) →
      ∃ c d, t.column? name = some c ∧ c.parseDates g = .ok d) :
    ∃ parsed, withDates t date = .ok parsed := by
  unfold withDates
  split
  · exact ⟨t, rfl⟩
  rename_i name g
  obtain ⟨c, d, hc, hd⟩ := h name g rfl
  obtain ⟨parsed, hparsed⟩ := Table.setColumn_total (t := t) (c := d) fun _ =>
    (Column.parseDates_ok hd).2.1.trans (ht c (Table.column?_some hc).1)
  simp only [bind_ok_iff, Table.column_ok_iff]
  exact ⟨parsed, c, hc, d, hd, hparsed⟩

theorem timePart_undated {r : Request α} {t : Table α} {roles : KeyRoles} {fs : List Family}
    (h : roles.date = none) : timePart r t roles fs = .ok (assemble []) := by
  unfold timePart
  rw [h]
  rfl

def dated (wide : Table α) (contributions : List (Option (Contribution α))) : Report α :=
  let report := assemble (contributions.filterMap id)
  { report with timings := .pivot :: report.timings, wide := some wide }

theorem timePart_dated_ok_iff {r : Request α} {t : Table α} {roles : KeyRoles} {fs : List Family}
    {date : String} {g : Calendar.Granularity} (h : roles.date = some (date, g))
    {time : Report α} :
    timePart r t roles fs = .ok time ↔ ∃ wide, wideTable r t roles date = .ok wide ∧
      ∃ contributions, (fs.filter (·.isTimeAware)).mapM
        (timeAware r wide date roles.slice (distinctSlices t roles.slice)) = .ok contributions ∧
      dated wide contributions = time := by
  unfold timePart
  rw [h]
  simp only [bind_ok_iff, pure_ok_iff]
  rfl

def seriesRecord (r : Request α) (model : Family) (series : String) (i : Imputation α)
    (missing rows exog : Nat) : MetricsRecord α :=
  record r model ((SeriesName.slice? r.settings.separator series).getD SeriesName.whole) i missing
    rows (some 1) (some exog)

theorem fillSeries_ok_iff {r : Request α} {model : Family} {wide : Table α} {date : String}
    {w : Windows} {progress progress' : Progress α} {series : String} :
    fillSeries r model wide date w progress series = .ok progress' ↔
      ∃ missing, wide.missingCount series = .ok missing ∧
        if missing = 0 then progress = progress' else
          ∃ frame, SeriesName.sliceFrame r.settings.separator wide date series = .ok frame ∧
          ∃ i exog, fillFrame r model frame series w = .ok (i, exog) ∧
          ∃ table, (i.filled.getD []).foldlM writeCell progress.2 = .ok table ∧
            (progress.1 ++ [seriesRecord r model series i missing frame.rowCount exog], table) =
              progress' := by
  unfold fillSeries
  rw [bind_ok_iff]
  refine exists_congr fun missing => and_congr_right fun _ => ?_
  split_ifs
  · exact pure_ok_iff
  · simp only [bind_ok_iff, pure_ok_iff, Prod.exists]
    rfl

def fillWide (r : Request α) (wide : Table α) (date : String) (model : Family) :
    Except Error (Progress α) :=
  let w := windowsOf r.settings wide.rowCount
  if model = .multivariate then jointly r wide w else perSeries r model wide date w

theorem timeAware_idle (r : Request α) (wide : Table α) (date : String) (slice : Option String)
    {distinct : Nat} (h : distinct ≤ 1) :
    timeAware r wide date slice distinct .multivariate = .ok none := by
  simp [timeAware, h, pure, Except.pure]

theorem timeAware_ok_iff {r : Request α} {wide : Table α} {date : String} {slice : Option String}
    {distinct : Nat} {model : Family} (h : ¬ (model = .multivariate ∧ distinct ≤ 1))
    {result : Option (Contribution α)} :
    timeAware r wide date slice distinct model = .ok result ↔
      ∃ progress, fillWide r wide date model = .ok progress ∧
      ∃ long, Pivot.gather r.settings.separator progress.2 date slice r.target = .ok long ∧
        some ⟨progress.1, ⟨model, long⟩⟩ = result := by
  have hb : ¬ (decide (model = .multivariate) && decide (distinct ≤ 1)) = true := by simpa using h
  unfold timeAware fillWide
  dsimp only
  rw [if_neg hb]
  split_ifs <;> simp only [bind_ok_iff, pure_ok_iff]

theorem rowPart_ok_iff {r : Request α} {t : Table α} {fs : List Family} {rows : Report α} :
    rowPart r t fs = .ok rows ↔ ∃ missing, t.missingCount r.target = .ok missing ∧
      ∃ contributions, (fs.filter (!·.isTimeAware)).mapM (timeAgnostic r t missing) =
        .ok contributions ∧ assemble contributions = rows := by
  unfold rowPart
  simp only [bind_ok_iff, pure_ok_iff]

/-- Without families for the long table, the run on it only asks whether the target is there. -/
theorem rowPart_timeAware (r : Request α) (t : Table α) {fs : List Family}
    (hfs : ∀ f ∈ fs, f.isTimeAware = true) :
    rowPart r t fs = t.column r.target >>= fun _ => .ok (assemble []) := by
  have hnone : fs.filter (!·.isTimeAware) = [] := by
    rw [List.filter_eq_nil_iff]
    intro f hf
    simp [hfs f hf]
  unfold rowPart Table.missingCount
  rw [hnone]
  cases t.column r.target <;> rfl

end Run

end Infill
