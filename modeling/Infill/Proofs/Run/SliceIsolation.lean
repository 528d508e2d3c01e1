import Infill.Proofs.Run.HeldBack
import Infill.Proofs.Run.Roster
import Infill.Proofs.Table.SliceVeil

/-! Slices do not see each other. A family that works series by series reads, for a series of one
slice, the dates and the columns of that slice, and writes to that series. So its records on a slice
and the rows of the slice that it hands back do not depend on the rows of other slices. -/

namespace Infill

variable {α : Type} [Scalar α]

namespace Run

open Table Pivot

/-- The family fills one series after the other, each in a frame of its own slice. -/
def worksBySeries : Family → Bool
  | .univariate | .timeDecisionTree | .timeRandomForest => true
  | _ => false

def sliceRecords (slice : String) (records : List (MetricsRecord α)) : List (MetricsRecord α) :=
  records.filter fun m => worksBySeries m.model && m.component == slice

def sliceRows (key slice : String) (tables : List (ImputedTable α)) : List (Family × Table α) :=
  (tables.filter (worksBySeries ·.model)).map fun e => (e.model, e.table.rowsLabelled key slice)

/-- Two reports tell the same of one slice. -/
structure AgreesOn (key slice : String) (report report' : Report α) : Prop where
  records : sliceRecords slice report'.metrics = sliceRecords slice report.metrics
  rows : sliceRows key slice report'.imputed = sliceRows key slice report.imputed

section Wide

variable {r : Request α} {date slice : String} {w w' : Table α}

omit [Scalar α] in
theorem heldBack_sameSlice (h : SameSlice r.settings.separator date slice w w') :
    Agree (SameSlice r.settings.separator date slice) (heldBack r w) (heldBack r w') := by
  unfold heldBack
  cases r.nullifyLast with
  | none => exact .ok h
  | some n =>
    dsimp only
    rw [SeriesName.ofMeasure_congr h.names_eq]
    refine Agree.foldlM (List.forall₂_same.2 fun _ _ => rfl) ?_ h
    rintro s s' name _ rfl hs
    exact hs.update_whole name (length_blankLast n)

theorem wideTable_sameSlice {t t' : Table α} {roles : KeyRoles} {key : String}
    (hkey : roles.slice = some key) (hd : r.settings.separator ∉ date.toList)
    (hm : ∀ m ∈ (pivotOf r t roles date).spreadMeasures t, r.settings.separator ∉ m.toList)
    (h : SameRows date key slice t t') :
    Agree (SameSlice r.settings.separator date slice) (wideTable r t roles date)
      (wideTable r t' roles date) := by
  have hpivot : pivotOf r t' roles date = pivotOf r t roles date := by
    rw [pivotOf, h.names_eq, pivotOf]
  rw [wideTable_eq, wideTable_eq, hpivot]
  refine (spread_sameSlice (p := pivotOf r t roles date) hkey hd hm h).bind fun s s' _ _ hs => ?_
  exact heldBack_sameSlice hs

omit [Scalar α] in
theorem heldBack_keeps (hw : w.Rectangular) (h : heldBack r w = .ok w') :
    w'.Rectangular ∧ w'.names = w.names := by
  unfold heldBack at h
  cases hn : r.nullifyLast with
  | none =>
    rw [hn] at h
    obtain rfl := Except.ok.inj h
    exact ⟨hw, rfl⟩
  | some n =>
    rw [hn] at h
    refine foldlM_keeps (fun s : Table α => s.Rectangular ∧ s.names = w.names) ?_ ⟨hw, rfl⟩ h
    rintro s name - ⟨hs, hnames⟩ s' hs'
    exact ⟨rectangular_update (length_blankLast n) hs hs', (update_names hs').trans hnames⟩

/-- The wide table of a run; its series of the target are spread from the target itself. -/
theorem wideTable_shape {t : Table α} {roles : KeyRoles} (hd : r.settings.separator ∉ date.toList)
    (hm : ∀ m ∈ (pivotOf r t roles date).spreadMeasures t, r.settings.separator ∉ m.toList)
    (h : wideTable r t roles date = .ok w) :
    w.Rectangular ∧ (SeriesName.ofMeasure r.settings.separator w r.target ≠ [] →
      r.target ∈ (pivotOf r t roles date).spreadMeasures t) := by
  rw [wideTable_eq, bind_ok_iff] at h
  obtain ⟨start, hstart, hheld⟩ := h
  obtain ⟨hwide, hcomposed⟩ := spread_wide hstart
  obtain ⟨hrect, hnames⟩ := heldBack_keeps hwide.wellFormed.rectangular hheld
  refine ⟨hrect, fun hne => ?_⟩
  obtain ⟨name, hname⟩ := List.exists_mem_of_ne_nil _ hne
  obtain ⟨hmem, other, hdec⟩ := SeriesName.mem_ofMeasure.1 hname
  obtain ⟨m, hmeasure, s, rfl⟩ := hcomposed name (hnames ▸ hmem) (Wide.series_ne_date hd hname)
  have hparts := SeriesName.decompose?_compose (hm m hmeasure) s
  obtain ⟨rfl, -⟩ := Prod.mk.inj (Option.some.inj (hparts.symm.trans hdec))
  exact hmeasure

end Wide

section Series

variable {r : Request α} {model : Family} {date slice series : String} {w w' : Table α}
  {win : Windows} {p p' q q' : Progress α}

structure SameProgress (r : Request α) (date slice : String) (p p' : Progress α) : Prop where
  records : sliceRecords slice p'.1 = sliceRecords slice p.1
  table : SameSlice r.settings.separator date slice p.2 p'.2

omit [Scalar α] in
theorem SameProgress.symm (h : SameProgress r date slice p p') :
    SameProgress r date slice p' p :=
  ⟨h.records.symm, h.table.symm⟩

omit [Scalar α] in
theorem SameProgress.trans (h : SameProgress r date slice p p')
    (h' : SameProgress r date slice p' q) : SameProgress r date slice p q :=
  ⟨h'.records.trans h.records, h.table.trans h'.table⟩

/-- A series of another slice adds nothing to what is told of this one. -/
theorem fillSeries_otherSlice (hd : r.settings.separator ∉ date.toList) {other : String}
    (hother : SeriesName.slice? r.settings.separator series = some other) (hne : other ≠ slice)
    (h : fillSeries r model w date win p series = .ok q) : SameProgress r date slice p q := by
  obtain ⟨missing, -, h⟩ := fillSeries_ok_iff.1 h
  split at h
  · subst h
    exact ⟨rfl, .refl _ _ _⟩
  obtain ⟨frame, -, i, exog, hi, table, htable, rfl⟩ := h
  have hveil : OtherSlice r.settings.separator date slice series := by
    refine ⟨by simp [hother, hne], ?_⟩
    rintro rfl
    rw [SeriesName.slice?, SeriesName.decompose?_none hd] at hother
    simp at hother
  constructor
  · simp [sliceRecords, seriesRecord, record, hother, hne]
  · refine foldlM_keeps (SameSlice r.settings.separator date slice p.2) ?_ (.refl _ _ p.2) htable
    intro s c hc hs s' hs'
    cases hfilled : i.filled with
    | none => simp [hfilled] at hc
    | some cells =>
      rw [hfilled] at hc
      obtain ⟨rfl, -⟩ := (fillFrame_writes hi).filled cells hfilled c hc
      exact hs.trans (Table.Veiled.of_update hveil (fun _ => List.length_set) hs')

/-- A series of the slice is filled from columns that both runs share. -/
theorem fillSeries_sameSlice
    (hseries : SeriesName.slice? r.settings.separator series = some slice)
    (hw : SameSlice r.settings.separator date slice w w')
    (hp : SameProgress r date slice p p') (h : fillSeries r model w date win p series = .ok q)
    (h' : fillSeries r model w' date win p' series = .ok q') : SameProgress r date slice q q' := by
  have hplain : ¬ OtherSlice r.settings.separator date slice series :=
    fun hother => hother.1 hseries
  have hframe := sliceFrame_sameSlice hseries hw
  obtain ⟨missing, hmissing, h⟩ := fillSeries_ok_iff.1 h
  obtain ⟨missing', hmissing', h'⟩ := fillSeries_ok_iff.1 h'
  rw [Table.missingCount, hw.column_plain hplain] at hmissing'
  obtain rfl := Except.ok.inj (hmissing.symm.trans hmissing')
  split at h
  · rename_i hzero
    rw [if_pos hzero] at h'
    subst h h'
    exact hp
  rename_i hne
  rw [if_neg hne, hframe] at h'
  obtain ⟨frame, hf, i, exog, hi, table, htable, rfl⟩ := h
  obtain ⟨frame', hf', i', exog', hi', table', htable', rfl⟩ := h'
  obtain rfl := Except.ok.inj (hf.symm.trans hf')
  obtain ⟨rfl, rfl⟩ := Prod.mk.inj (Except.ok.inj (hi.symm.trans hi'))
  constructor
  · have := hp.records
    simp only [sliceRecords] at this
    simp [sliceRecords, this]
  · have hwritten : Agree (SameSlice r.settings.separator date slice)
        ((i.filled.getD []).foldlM writeCell p.2) ((i.filled.getD []).foldlM writeCell p'.2) := by
      refine Agree.foldlM (List.forall₂_same.2 fun _ _ => rfl) ?_ hp.table
      rintro s s' c _ rfl hs
      exact hs.update_whole c.column fun _ => List.length_set
    exact hwritten.results htable htable'

theorem perSeries_sameSlice (hd : r.settings.separator ∉ date.toList)
    (hw : SameSlice r.settings.separator date slice w w')
    (h : perSeries r model w date win = .ok q) (h' : perSeries r model w' date win = .ok q') :
    SameProgress r date slice q q' := by
  unfold perSeries at h h'
  rw [SeriesName.ofMeasure_congr hw.names_eq] at h'
  have hstart : SameProgress r date slice (([], w) : Progress α) ([], w') := ⟨rfl, hw⟩
  refine foldlM_keeps_both (SameProgress r date slice) ?_ hstart h h'
  intro s s' series hseries hs m m' hm hm'
  obtain ⟨other, hother⟩ := SeriesName.slice?_of_mem_ofMeasure hseries
  by_cases heq : other = slice
  · subst heq
    exact fillSeries_sameSlice hother hw hs hm hm'
  · have hleft := fillSeries_otherSlice hd hother heq hm
    have hright := fillSeries_otherSlice hd hother heq hm'
    exact hleft.symm.trans (hs.trans hright)

end Series

section Reports

variable {r : Request α} {s s' : Setup α} {date : String × Calendar.Granularity}
  {key slice : String} {c c' : Option (Contribution α)} {f : Family}

structure SameContribution (key slice : String) (c c' : Option (Contribution α)) : Prop where
  records : sliceRecords slice (c'.toList.flatMap (·.metrics)) =
    sliceRecords slice (c.toList.flatMap (·.metrics))
  rows : sliceRows key slice (c'.toList.map (·.imputed)) =
    sliceRows key slice (c.toList.map (·.imputed))

theorem fillWide_models {wide : Table α} {date : String} {progress : Progress α}
    (h : fillWide r wide date f = .ok progress) : ∀ m ∈ progress.1, m.model = f := by
  have hrecords : ∃ slices : List (Option String), progress.1.map recordOf = slices.map (f, ·) := by
    unfold fillWide at h
    dsimp only at h
    split at h
    · rename_i hf
      exact ⟨[some SeriesName.whole], by rw [jointly_records h, hf]; rfl⟩
    · rw [perSeries_records h]
      exact ⟨_, (List.map_map ..).symm⟩
  obtain ⟨slices, hslices⟩ := hrecords
  intro m hm
  have hmem : recordOf m ∈ slices.map (f, ·) := hslices ▸ List.mem_map_of_mem hm
  obtain ⟨_, -, heq⟩ := List.mem_map.1 hmem
  exact (congrArg Prod.fst heq).symm

theorem contribution_models {c : Contribution α} (h : contribution r s f = .ok (some c)) :
    c.imputed.model = f ∧ ∀ m ∈ c.metrics, m.model = f := by
  unfold contribution at h
  split_ifs at h
  · split at h
    · simp at h
    rename_i date wide _
    by_cases hidle : f = .multivariate ∧ distinctSlices s.parsed (rolesOf r).slice ≤ 1
    · rw [hidle.1, timeAware_idle _ _ _ _ hidle.2] at h
      simp at h
    obtain ⟨progress, hp, long, -, heq⟩ := (timeAware_ok_iff hidle).1 h
    obtain rfl := Option.some.inj heq
    exact ⟨rfl, fillWide_models hp⟩
  · obtain ⟨d, hd, heq⟩ := map_ok_iff.1 h
    obtain rfl := Option.some.inj heq
    simp only [timeAgnostic, bind_ok_iff, pure_ok_iff] at hd
    obtain ⟨i, -, rfl⟩ := hd
    exact ⟨rfl, by simp [record]⟩

/-- A family that works on all series or on all rows at once tells nothing of a slice. -/
theorem contribution_together (hf : worksBySeries f = false) (h : contribution r s f = .ok c) :
    SameContribution key slice none c := by
  cases c with
  | none => exact ⟨rfl, rfl⟩
  | some c =>
    obtain ⟨himputed, hmetrics⟩ := contribution_models h
    refine ⟨?_, by simp [sliceRows, himputed, hf]⟩
    have hnone : sliceRecords slice c.metrics = [] := by
      refine List.filter_eq_nil_iff.2 fun m hm => ?_
      simp [hmetrics m hm, hf]
    simpa [sliceRecords] using hnone

theorem SameContribution.symm (h : SameContribution key slice c c') :
    SameContribution key slice c' c :=
  ⟨h.records.symm, h.rows.symm⟩

theorem SameContribution.trans {c'' : Option (Contribution α)}
    (h : SameContribution key slice c c') (h' : SameContribution key slice c' c'') :
    SameContribution key slice c c'' :=
  ⟨h'.records.trans h.records, h'.rows.trans h.rows⟩

structure SameSetup (r : Request α) (date key slice : String) (w w' : Table α)
    (s s' : Setup α) : Prop where
  left : s.wide = some (date, w)
  right : s'.wide = some (date, w')
  same : SameSlice r.settings.separator date slice w w'
  rectangular : w.Rectangular
  /-- The rows of a key can be found in the long table if the target is not written over it. -/
  unkeyed : SeriesName.ofMeasure r.settings.separator w r.target ≠ [] → key ≠ r.target

theorem contribution_sameSlice {w w' : Table α} (hd : r.settings.separator ∉ date.1.toList)
    (hslice : (rolesOf r).slice = some key) (hs : SameSetup r date.1 key slice w w' s s')
    (h : contribution r s f = .ok c) (h' : contribution r s' f = .ok c') :
    SameContribution key slice c c' := by
  cases hf : worksBySeries f with
  | false => exact (contribution_together hf h).symm.trans (contribution_together hf h')
  | true =>
    have haware : f.isTimeAware = true := by cases f <;> simp_all [worksBySeries, Family.isTimeAware]
    have hmulti : f ≠ .multivariate := by rintro rfl; simp [worksBySeries] at hf
    rw [contribution, if_pos haware, hs.left, hslice] at h
    rw [contribution, if_pos haware, hs.right, hslice] at h'
    obtain ⟨p, hp, long, hlong, rfl⟩ := (timeAware_ok_iff fun hi => hmulti hi.1).1 h
    obtain ⟨p', hp', long', hlong', rfl⟩ := (timeAware_ok_iff fun hi => hmulti hi.1).1 h'
    have hfills := fillWide_fills hp
    rw [fillWide, if_neg hmulti] at hp hp'
    rw [hs.same.rowCount] at hp'
    have hsame := perSeries_sameSlice hd hs.same hp hp'
    obtain ⟨-, -, hseries, -⟩ := gather_ok_iff.1 hlong
    rw [SeriesName.ofMeasure_congr hfills.names_eq] at hseries
    have hrows := gather_sameSlice (hs.unkeyed hseries) (hfills.rectangular hs.rectangular)
      hsame.table hlong hlong'
    constructor
    · simpa using hsame.records
    · simp [sliceRows, hf, hrows]

theorem agreesOn_report {cs cs' : List (Option (Contribution α))}
    (h : List.Forall₂ (SameContribution key slice) cs cs') :
    AgreesOn key slice (s.report cs) (s'.report cs') := by
  have hmetrics : ∀ cs : List (Option (Contribution α)), (cs.filterMap id).flatMap (·.metrics) =
      cs.flatMap fun c => c.toList.flatMap (·.metrics) := by
    intro cs
    rw [List.filterMap_eq_flatMap_toList, List.flatMap_assoc]
    rfl
  have himputed : ∀ cs : List (Option (Contribution α)), (cs.filterMap id).map (·.imputed) =
      cs.flatMap fun c => c.toList.map (·.imputed) := by
    intro cs
    rw [List.filterMap_eq_flatMap_toList, List.map_flatMap]
    rfl
  constructor
  · simp only [Setup.report, hmetrics]
    induction h with
    | nil => rfl
    | cons hc _ ih =>
      have := hc.records
      simp only [sliceRecords] at this ih
      simp [sliceRecords, this, ih]
  · simp only [Setup.report, himputed]
    induction h with
    | nil => rfl
    | cons hc _ ih =>
      have := hc.rows
      simp only [sliceRows] at this ih
      simp [sliceRows, this, ih]

end Reports

section TwoRuns

variable {t t' : Table α} {r : Request α} {date : String × Calendar.Granularity}
  {key slice : String}

theorem setup_sameSlice (hroles : rolesOf r = ⟨some date, some key⟩)
    (hd : r.settings.separator ∉ date.1.toList)
    (hm : ∀ m ∈ (pivotOf r t (rolesOf r) date.1).spreadMeasures t,
      r.settings.separator ∉ m.toList)
    (h : SameRows date.1 key slice t t') {s s' : Setup α} (hs : s.Of t r) (hs' : s'.Of t' r) :
    ∃ w w', SameSetup r date.1 key slice w w' s s' := by
  have hdate : (rolesOf r).date = some date := by rw [hroles]
  have hslice : (rolesOf r).slice = some key := by rw [hroles]
  have hne : ∀ name, name ≠ date.1 → ∀ d g, (rolesOf r).date = some (d, g) → name ≠ d := by
    rintro name hname d g heq rfl
    obtain rfl := Option.some.inj (hdate.symm.trans heq)
    exact hname rfl
  have hkey : key ≠ date.1 := (KeyRoles.pick_slice_mem hslice).2 date.1 date.2 hdate
  -- reading the dates changes neither the keys nor which columns are spread
  have hread := withDates_reads hs.parsed
  have hlabels : ∀ row, s.parsed.labelAt key row = t.labelAt key row := by
    intro row
    rw [Table.labelAt, hread.column?_other (hne key hkey), Table.labelAt]
  have hmeasures : ∀ m ∈ (pivotOf r s.parsed (rolesOf r) date.1).spreadMeasures s.parsed,
      r.settings.separator ∉ m.toList := by
    intro m hmem
    refine hm m ?_
    rw [mem_spreadMeasures] at hmem ⊢
    rw [← hread.numeric_other (hne m hmem.2.1)]
    simpa [pivotOf, hread.names_eq] using hmem
  have hparsed : SameRows date.1 key slice s.parsed s'.parsed := by
    have hsame := (withDates_veiled (by simp) h).results (hdate ▸ hs.parsed) (hdate ▸ hs'.parsed)
    simp only [← hlabels] at hsame
    exact hsame
  have hwide := hs.wide
  have hwide' := hs'.wide
  rw [wideSetup, hdate] at hwide hwide'
  obtain ⟨w, hw, heq⟩ := map_ok_iff.1 hwide
  obtain ⟨w', hw', heq'⟩ := map_ok_iff.1 hwide'
  obtain ⟨hrect, htarget⟩ := wideTable_shape hd hmeasures hw
  have hsame := wideTable_sameSlice hslice hd hmeasures hparsed
  refine ⟨w, w', heq.symm, heq'.symm, hsame.results hw hw', hrect, fun hseries hkt => ?_⟩
  exact (mem_spreadMeasures.1 (htarget hseries)).2.2.1 (by simp [pivotOf, hslice, hkt])

/-- What a family that works series by series tells of a slice does not depend on other slices. -/
theorem slices_apart (hroles : rolesOf r = ⟨some date, some key⟩)
    (hd : r.settings.separator ∉ date.1.toList)
    (hm : ∀ m ∈ (pivotOf r t (rolesOf r) date.1).spreadMeasures t,
      r.settings.separator ∉ m.toList)
    (h : SameRows date.1 key slice t t') {roster : List String} {report report' : Report α}
    (hrun : predict t roster r = .ok report) (hrun' : predict t' roster r = .ok report') :
    AgreesOn key slice report report' := by
  obtain ⟨s, hs, cs, hcs, rfl⟩ := predict_ok_iff_contributions.1 hrun
  obtain ⟨s', hs', cs', hcs', rfl⟩ := predict_ok_iff_contributions.1 hrun'
  have hslice : (rolesOf r).slice = some key := by rw [hroles]
  obtain ⟨w, w', hsetup⟩ := setup_sameSlice hroles hd hm h hs hs'
  refine agreesOn_report (mapM_both (fun f c c' hc hc' => ?_) hcs hcs')
  exact contribution_sameSlice hd hslice hsetup hc hc'

end TwoRuns

def recounted : Table Float :=
  counted [some 4.0, some 8.0, none, none, some 5.0, some 6.0]
    [some 10.0, none, none, some 30.0, some 12.0, some 2.0]

/-- The odd rows are those of the other province. -/
theorem counted_sameRows {traps adults traps' adults' : List (Option Float)}
    (htraps : EqOff (· % 2 = 1) traps traps') (hadults : EqOff (· % 2 = 1) adults adults') :
    SameRows "year" "province" "BO" (counted traps adults) (counted traps' adults') := by
  have hother : ∀ row, row % 2 = 1 →
      (counted traps adults).labelAt "province" row ≠ some "BO" := by
    intro row hodd
    have hlabel : (counted traps adults).labelAt "province" row =
        [some "BO", some "RA", some "BO", some "RA", some "BO", some "RA"][row]?.join := by
      simp [Table.labelAt, Table.column?, counted, captures, Cells.label?]
    have hodds : ∀ row < 6, row % 2 = 1 →
        [some "BO", some "RA", some "BO", some "RA", some "BO", some "RA"][row]?.join ≠
          some "BO" := by decide
    rw [hlabel]
    rcases Nat.lt_or_ge row 6 with hlt | hge
    · exact hodds row hlt hodd
    · rw [List.getElem?_eq_none hge]
      simp
  have hshown : ∀ {xs ys : List (Option Float)}, EqOff (· % 2 = 1) xs ys → EqOff
      (fun row => (counted traps adults).labelAt "province" row ≠ some "BO") xs ys :=
    fun h => ⟨h.length, fun row hrow => h.shown row (mt (hother row) hrow)⟩
  refine ⟨rfl, .cons (.refl _ _ _) (.cons (.refl _ _ _) (.cons ⟨rfl, .numeric ?_, ?_⟩
    (.cons ⟨rfl, .numeric ?_, ?_⟩ .nil)))⟩
  · exact hshown htraps
  · exact fun hplain => (hplain ⟨by simp, by simp⟩).elim
  · exact hshown hadults
  · exact fun hplain => (hplain ⟨by simp, by simp⟩).elim

theorem recounted_sameRows : SameRows "year" "province" "BO" captures recounted := by
  have heven : ∀ {a b c d e f g h i : Option Float},
      EqOff (· % 2 = 1) [a, d, b, e, c, f] [a, g, b, h, c, i] := by
    intro a b c d e f g h i
    refine ⟨rfl, fun row hrow => ?_⟩
    match row with
    | 0 | 2 | 4 => rfl
    | 1 | 3 | 5 => exact absurd rfl hrow
    | n + 6 => rfl
  exact counted_sameRows heven heven

theorem captures_slices_apart : SameRows "year" "province" "BO" captures recounted ∧
    ∃ report report',
      predict captures ["univariateTS", "timeDecisionTree", "timeRandomForest"]
        capturesRequest = .ok report ∧
      predict recounted ["univariateTS", "timeDecisionTree", "timeRandomForest"]
        capturesRequest = .ok report' ∧ AgreesOn "province" "BO" report report' := by
  obtain ⟨report, h⟩ := captures_run ["univariateTS", "timeDecisionTree", "timeRandomForest"]
  obtain ⟨report', h'⟩ := (counted_admissible rfl rfl : Admissible recounted _).run
    ["univariateTS", "timeDecisionTree", "timeRandomForest"]
  have hroles : rolesOf capturesRequest = ⟨some ("year", .year), some "province"⟩ := rfl
  have hmeasures : ∀ m ∈ (pivotOf capturesRequest captures (rolesOf capturesRequest)
      "year").spreadMeasures captures, capturesRequest.settings.separator ∉ m.toList := by
    intro m hm
    have hname : m ∈ captures.names := (List.mem_filter.1 (mem_spreadMeasures.1 hm).1).1
    exact (by decide : ∀ name ∈ captures.names, '!' ∉ name.toList) m hname
  exact ⟨recounted_sameRows, report, report', h, h',
    slices_apart hroles (by decide) hmeasures recounted_sameRows h h'⟩

end Run

end Infill
