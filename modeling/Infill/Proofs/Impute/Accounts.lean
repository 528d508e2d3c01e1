import Infill.Proofs.Impute.Ledger
import Infill.Proofs.Impute.Reasons
import Infill.Proofs.Table.SeriesName

/-! What the outcome of a filling of series tells. Whether anything was missing, what was written and
what stood in the way are kept in different places; they agree with the table that is handed back,
for every pattern of gaps and every pattern of predictions that fail. -/

namespace Infill

variable {α : Type} [Scalar α]

open Table

def Table.OpenRow (t : Table α) (targets : List String) (row : Nat) : Prop :=
  row < t.rowCount ∧ ∃ name ∈ targets, t.MissingAt name row

/-- The outcome of a filling agrees with the tables before and after it. -/
structure Imputation.Accounts (targets : List String) (t : Table α) (i : Imputation α) : Prop where
  noOp : i.isNoOp = true ∧ i.table = t ↔ ∀ row, ¬ t.OpenRow targets row
  filled : ∀ cells, i.filled = some cells → t.writeCells cells = .ok i.table ∧
    (cells.map fun c => (c.column, c.row)).Nodup ∧
    ∀ c ∈ cells, c.column ∈ targets ∧ c.row < t.rowCount ∧ t.MissingAt c.column c.row ∧
      Scalar.isFinite c.value = true
  unfilled : i.filled = none → i.table = t ∧ (i.isNoOp = true ∨ i.failure ≠ none)
  complete : (∃ row, t.OpenRow targets row) →
    (i.failure = none ↔ ∀ row, ¬ i.table.OpenRow targets row)
  first : ∀ row reason, i.failure = some (.gapNotFilled row reason) →
    i.table.OpenRow targets row ∧ ∀ row', i.table.OpenRow targets row' → row ≤ row'

namespace Imputation.Accounts

variable {t : Table α} {targets : List String} {i : Imputation α}

theorem unchanged (h : ∀ row, ¬ t.OpenRow targets row) :
    (Imputation.unchanged t).Accounts targets t where
  noOp := ⟨fun _ => h, fun _ => ⟨rfl, rfl⟩⟩
  filled := by simp [Imputation.unchanged]
  unfilled := fun _ => ⟨rfl, .inl rfl⟩
  complete := fun ⟨row, hrow⟩ => absurd hrow (h row)
  first := by simp [Imputation.unchanged]

/-- A search or a fit has failed, and the table is as it was. -/
theorem stuck {e : Error} (ht : i.table = t) (hfilled : i.filled = none)
    (hfailure : i.failure = some e) (he : e.tellsOfGap = false)
    (hopen : ∃ row, t.OpenRow targets row) : i.Accounts targets t where
  noOp := by simpa [Imputation.isNoOp, hfailure] using hopen
  filled := by simp [hfilled]
  unfilled := fun _ => ⟨ht, .inr (by simp [hfailure])⟩
  complete := fun _ => by simpa [hfailure, ht] using hopen
  first := by
    intro row reason h
    obtain rfl := Option.some.inj (hfailure.symm.trans h)
    simp [Error.tellsOfGap] at he

end Imputation.Accounts

namespace GapFill

section Runs

variable {t : Table α} {columns : List String} {missing : List Bool} {model : Forecaster α}
  {covariates : List (List α)} {s : GapFill α}

/-- A row is open afterwards if it was open and its run could not be predicted. -/
theorem openRow_iff (h : Completes model covariates missing t columns s) {row : Nat} :
    s.table.OpenRow columns row ↔ t.OpenRow columns row ∧
      ∀ g ∈ Gap.runs missing, row ∈ g.rows → reasonOf model covariates g ≠ none := by
  simp only [OpenRow, h.missingAt, h.ledger.writes.table.rowCount]
  constructor
  · rintro ⟨hrow, name, hname, hmissing, hclosed⟩
    refine ⟨⟨hrow, name, hname, hmissing⟩, fun g hg hgrow hnone => hclosed ⟨hname, g, hg, hgrow, hnone⟩⟩
  · rintro ⟨⟨hrow, name, hname, hmissing⟩, hleft⟩
    exact ⟨hrow, name, hname, hmissing, fun ⟨_, g, hg, hgrow, hnone⟩ => hleft g hg hgrow hnone⟩

/-- The reason that is kept names the first row that is still open. -/
theorem first_open (h : Completes model covariates missing t columns s)
    (hmissing : ∀ row, missing[row]? = some true ↔ t.OpenRow columns row) {e : Error}
    (he : (Gap.runs missing).findSome? (reasonOf model covariates) = some e) :
    ∃ row reason, e = .gapNotFilled row reason ∧ s.table.OpenRow columns row ∧
      ∀ row', s.table.OpenRow columns row' → row ≤ row' := by
  obtain ⟨before, g, after, hruns, hreason, hbefore⟩ := List.findSome?_eq_some_iff.1 he
  have hascending := Gap.runs_ascending missing
  rw [hruns, List.pairwise_append] at hascending
  obtain ⟨-, hfrom, hinto⟩ := hascending
  have hafter := (List.pairwise_cons.1 hfrom).1
  have hg : g ∈ Gap.runs missing := by simp [hruns]
  have hfirst : g.first ∈ g.rows := Gap.first_mem_rows (Gap.length_pos_of_mem_runsFrom g hg)
  have hname : ∃ reason, e = .gapNotFilled g.first reason := by
    unfold reasonOf at hreason
    split at hreason
    · simp at hreason
    · exact ⟨_, (Option.some.inj hreason).symm⟩
  obtain ⟨reason, rfl⟩ := hname
  refine ⟨g.first, reason, rfl, (openRow_iff h).2 ⟨?_, fun g' hg' hrow hnone => ?_⟩, ?_⟩
  · exact (hmissing _).1 (Gap.mem_runs_rows.1 ⟨g, hg, hfirst⟩)
  · -- no other run has a row of this one
    rw [hruns, List.mem_append, List.mem_cons] at hg'
    rcases hg' with hg' | rfl | hg'
    · exact absurd (hinto g' hg' g (by simp) _ hrow _ hfirst) (Nat.lt_irrefl _)
    · simp [hreason] at hnone
    · exact absurd (hafter g' hg' _ hfirst _ hrow) (Nat.lt_irrefl _)
  · intro row' hrow'
    obtain ⟨hopen, hleft⟩ := (openRow_iff h).1 hrow'
    obtain ⟨g', hg', hgrow⟩ := Gap.mem_runs_rows.2 ((hmissing _).2 hopen)
    have hne := hleft g' hg' hgrow
    rw [hruns, List.mem_append, List.mem_cons] at hg'
    rcases hg' with hg' | rfl | hg'
    · exact absurd (hbefore g' hg') hne
    · exact (List.mem_range'_1.1 hgrow).1
    · exact Nat.le_of_lt (hafter g' hg' _ hfirst _ hgrow)

theorem accounts (h : Completes model covariates missing t columns s)
    (hmissing : ∀ row, missing[row]? = some true ↔ t.OpenRow columns row)
    (hopen : ∃ row, t.OpenRow columns row) {i : Imputation α} (htable : i.table = s.table)
    (hfilled : i.filled = some s.filled) (hfailure : i.failure = s.unfilled) :
    i.Accounts columns t := by
  have hreason : i.failure = (Gap.runs missing).findSome? (reasonOf model covariates) := by
    rw [hfailure, h.unfilled, Option.none_or]
  constructor
  · simpa [Imputation.isNoOp, hfilled] using hopen
  · intro cells hcells
    obtain rfl := Option.some.inj (hfilled.symm.trans hcells)
    refine ⟨htable ▸ h.ledger.table, h.ledger.distinct, fun c hc => ?_⟩
    obtain ⟨hcolumn, hgone⟩ := h.ledger.writes.filled c hc
    exact ⟨hcolumn, h.ledger.inside c hc, hgone, h.ledger.finite c hc⟩
  · simp [hfilled]
  · intro _
    rw [hreason, htable]
    constructor
    · intro hnone row hrow
      obtain ⟨hbefore, hleft⟩ := (openRow_iff h).1 hrow
      obtain ⟨g, hg, hgrow⟩ := Gap.mem_runs_rows.2 ((hmissing row).2 hbefore)
      exact hleft g hg hgrow (List.findSome?_eq_none_iff.1 hnone g hg)
    · intro hclosed
      cases he : (Gap.runs missing).findSome? (reasonOf model covariates) with
      | none => rfl
      | some e =>
        obtain ⟨row, -, -, hrow, -⟩ := first_open h hmissing he
        exact absurd hrow (hclosed row)
  · intro row reason hrow
    rw [hreason] at hrow
    obtain ⟨row', reason', heq, hstill, hfirst⟩ := first_open h hmissing hrow
    obtain ⟨rfl, -⟩ := Error.gapNotFilled.inj heq
    rw [htable]
    exact ⟨hstill, hfirst⟩

end Runs

end GapFill

namespace SeriesFill

section Samples

variable {t : Table α} {targets : List String} {s : Sample α}

/-- A sample shows the targets of a table and the rows in which one of them is missing. -/
structure Sample.Shows (s : Sample α) (t : Table α) (targets : List String) : Prop where
  table : s.table = t
  names : s.targets = targets
  series : s.series.length = targets.length
  rows : s.missing.length = t.rowCount
  missing : ∀ row, s.missing[row]? = some true ↔ t.OpenRow targets row

theorem Sample.shows_ofTable {separator : Char} {measure : String}
    (h : Sample.ofTable separator t targets measure = .ok s) : s.Shows t targets := by
  simp only [Sample.ofTable, bind_ok_iff, pure_ok_iff] at h
  obtain ⟨series, hseries, rfl⟩ := h
  have hpairs := mapM_ok_iff.1 hseries
  refine ⟨rfl, rfl, hpairs.length_eq.symm, by simp [Sample.missingIn], fun row => ?_⟩
  have hgone : (series.any fun values => (Scalar.observed values[row]?.join).isNone) = true ↔
      ∃ name ∈ targets, t.MissingAt name row := by
    simp only [List.any_eq_true, Option.isNone_iff_eq_none, ← isMissing_numeric_iff]
    constructor
    · rintro ⟨values, hmem, hmissing⟩
      obtain ⟨name, hname, hvalues⟩ := forall₂_mem_right hpairs hmem
      exact ⟨name, hname, (missingAt_iff hvalues).2 hmissing⟩
    · rintro ⟨name, hname, hmissing⟩
      obtain ⟨values, hmem, hvalues⟩ := forall₂_mem_left hpairs hname
      exact ⟨values, hmem, (missingAt_iff hvalues).1 hmissing⟩
  by_cases hrow : row < t.rowCount
  · simpa [Sample.missingIn, hrow, OpenRow] using hgone
  · simp [Sample.missingIn, hrow, OpenRow]

theorem missing_contains_iff (hs : s.Shows t targets) :
    s.missing.contains true = true ↔ ∃ row, t.OpenRow targets row := by
  rw [List.contains_iff_mem, List.mem_iff_getElem?]
  exact exists_congr hs.missing

theorem finish_accounts [Scalar.FiniteIsNumber α] {family : Family α} (hf : family.Dimensioned)
    (hp : family.Plain) (ht : t.Rectangular) (hs : s.Shows t targets)
    (hopen : ∃ row, t.OpenRow targets row) {split : Split} {successes : Nat}
    {best : Search.Best (Score.Holdout α)} {i : Imputation α}
    (h : finish family s split successes best = .ok i) : i.Accounts targets t := by
  unfold finish at h
  dsimp only at h
  split at h
  · rename_i e hfit
    obtain rfl := pure_ok_iff.1 h
    exact .stuck hs.table rfl rfl (hp _ _ _ e hfit) hopen
  · rename_i fitted hfit
    obtain ⟨gaps, hgaps, h⟩ := bind_ok_iff.1 h
    obtain rfl := pure_ok_iff.1 h
    have hdim := hf _ _ _ _ hfit
    rw [Sample.endog, List.length_map, hs.series] at hdim
    rw [hs.table, hs.names] at hgaps
    exact GapFill.accounts (GapFill.fill_completes hdim ht hs.rows hgaps) hs.missing hopen rfl rfl
      rfl

theorem train_accounts [Scalar.FiniteIsNumber α] {family : Family α} (hf : family.Dimensioned)
    (hp : family.Plain) (ht : t.Rectangular) (hs : s.Shows t targets)
    {testSize accuracySize : Nat} {settings : Settings α} {i : Imputation α}
    (h : train family s testSize accuracySize settings = .ok i) : i.Accounts targets t := by
  unfold train at h
  split at h
  · rename_i hsome
    have hopen := (missing_contains_iff hs).1 hsome
    dsimp only at h
    split at h
    · rename_i e hsearch
      obtain rfl := Except.ok.inj h
      exact .stuck hs.table rfl rfl (Search.requireBest_plain _ _ _ e hsearch) hopen
    · exact finish_accounts hf hp ht hs hopen h
  · rename_i hnone
    obtain rfl := Except.ok.inj h
    rw [hs.table]
    exact .unchanged fun row hrow => hnone ((missing_contains_iff hs).2 ⟨row, hrow⟩)

theorem train_noOp {family : Family α} (hs : s.Shows t targets)
    (hclosed : ∀ row, ¬ t.OpenRow targets row) (testSize accuracySize : Nat)
    (settings : Settings α) :
    train family s testSize accuracySize settings = .ok (Imputation.unchanged t) := by
  unfold train
  rw [if_neg, hs.table]
  rw [missing_contains_iff hs]
  rintro ⟨row, hrow⟩
  exact hclosed row hrow

end Samples

/-- The trainers of time series: of one column, and of all columns of a measure. -/
inductive Trainer
  | single (target : String)
  | joint (measure : String)

namespace Trainer

def targets (separator : Char) (t : Table α) : Trainer → List String
  | single target => [target]
  | joint measure => SeriesName.ofMeasure separator t measure

/-- The filling, without the numbers of series and covariates that come with it. -/
def run (trainer : Trainer) (t : Table α) (testSize accuracySize : Nat) (settings : Settings α) :
    Except Error (Imputation α) :=
  match trainer with
  | single target => (Single.train t target testSize accuracySize settings).map (·.1)
  | joint measure => (Joint.train t measure testSize accuracySize settings).map (·.1)

def family : Trainer → Family α
  | single _ => Single.family
  | joint _ => Joint.family

/-- The measure whose columns are no covariates. -/
def measure (separator : Char) : Trainer → String
  | single target => SeriesName.measure separator target
  | joint measure => measure

theorem family_dimensioned (trainer : Trainer) : (trainer.family : Family α).Dimensioned := by
  cases trainer with
  | single => exact Single.family_dimensioned
  | joint => exact Joint.family_dimensioned

theorem family_plain (trainer : Trainer) : (trainer.family : Family α).Plain := by
  cases trainer with
  | single => exact Single.family_plain
  | joint => exact Joint.family_plain

variable {trainer : Trainer} {t : Table α} {testSize accuracySize : Nat} {settings : Settings α}
  {i : Imputation α}

theorem run_ok_iff : trainer.run t testSize accuracySize settings = .ok i ↔
    trainer.targets settings.separator t ≠ [] ∧
      ∃ s, Sample.ofTable settings.separator t (trainer.targets settings.separator t)
          (trainer.measure settings.separator) = .ok s ∧
        train trainer.family s testSize accuracySize settings = .ok i := by
  cases trainer with
  | single target =>
    constructor
    · intro h
      obtain ⟨⟨j, count⟩, hj, rfl⟩ := map_ok_iff.1 h
      simp only [Single.train, bind_ok_iff, pure_ok_iff] at hj
      obtain ⟨s, hs, j, hj, heq⟩ := hj
      obtain ⟨rfl, -⟩ := Prod.mk.inj heq
      exact ⟨by simp [targets], s, hs, hj⟩
    · rintro ⟨-, s, hs, hi⟩
      refine map_ok_iff.2 ⟨(i, s.covariates.length), ?_, rfl⟩
      simp only [Single.train, bind_ok_iff, pure_ok_iff]
      exact ⟨s, hs, i, hi, rfl⟩
  | joint m =>
    constructor
    · intro h
      obtain ⟨⟨j, dims⟩, hj, rfl⟩ := map_ok_iff.1 h
      simp only [Joint.train, check_ok_iff, bind_ok_iff, pure_ok_iff] at hj
      obtain ⟨hne, s, hs, j, hj, heq⟩ := hj
      obtain ⟨rfl, -⟩ := Prod.mk.inj heq
      exact ⟨by simpa [targets] using hne, s, hs, hj⟩
    · rintro ⟨hne, s, hs, hi⟩
      refine map_ok_iff.2
        ⟨(i, ⟨(targets settings.separator t (joint m)).length, s.covariates.length⟩), ?_, rfl⟩
      simp only [Joint.train, check_ok_iff, bind_ok_iff, pure_ok_iff]
      exact ⟨by simpa [targets] using hne, s, hs, i, hi, rfl⟩

theorem run_noOp (hne : trainer.targets settings.separator t ≠ [])
    (hnumeric : t.NumericAt (trainer.targets settings.separator t))
    (hclosed : ∀ row, ¬ t.OpenRow (trainer.targets settings.separator t) row) :
    trainer.run t testSize accuracySize settings = .ok (Imputation.unchanged t) := by
  obtain ⟨s, hs, -⟩ := Sample.ofTable_total hnumeric settings.separator
    (trainer.measure settings.separator)
  exact run_ok_iff.2 ⟨hne, s, hs, train_noOp (Sample.shows_ofTable hs) hclosed _ _ _⟩

/-- The outcome of a trainer accounts for the table, and a table that it has completed is left as
it is. -/
theorem run_accounts [Scalar.FiniteIsNumber α] (ht : t.Rectangular)
    (h : trainer.run t testSize accuracySize settings = .ok i) :
    i.Accounts (trainer.targets settings.separator t) t ∧
      (i.failure = none → ∀ testSize' accuracySize', ∃ j,
        trainer.run i.table testSize' accuracySize' settings = .ok j ∧
          j.isNoOp = true ∧ j.table = i.table) := by
  obtain ⟨hne, s, hs, htrain⟩ := run_ok_iff.1 h
  have hshows := Sample.shows_ofTable hs
  have haccounts := train_accounts trainer.family_dimensioned trainer.family_plain ht hshows htrain
  refine ⟨haccounts, fun hnone testSize' accuracySize' => ⟨Imputation.unchanged i.table, ?_, rfl, rfl⟩⟩
  have hfills := (train_writes htrain).table
  rw [hshows.table, hshows.names] at hfills
  have htargets : trainer.targets settings.separator i.table =
      trainer.targets settings.separator t := by
    cases trainer with
    | single => rfl
    | joint => exact SeriesName.ofMeasure_congr hfills.names_eq _ _
  have hnumeric : i.table.NumericAt (trainer.targets settings.separator t) := by
    intro name hname
    obtain ⟨series, hseries, -⟩ := bind_ok_iff.1 hs
    obtain ⟨xs, -, hx⟩ := forall₂_mem_left (mapM_ok_iff.1 hseries) hname
    exact hfills.numeric hx
  have hclosed : ∀ row, ¬ i.table.OpenRow (trainer.targets settings.separator t) row := by
    by_cases hopen : ∃ row, t.OpenRow (trainer.targets settings.separator t) row
    · exact (haccounts.complete hopen).1 hnone
    · have hall : ∀ row, ¬ t.OpenRow (trainer.targets settings.separator t) row :=
        fun row hrow => hopen ⟨row, hrow⟩
      rw [(haccounts.noOp.2 hall).2]
      exact hall
  exact run_noOp (htargets ▸ hne) (htargets ▸ hnumeric) (htargets ▸ hclosed)

def gappy : Table Float where
  columns := [
    ⟨"adults!BO", .numeric [none, some 10.0, some 7.0, none, some 12.0, some 9.0]⟩,
    ⟨"traps!BO", .numeric [some 4.0, some 2.0, some 3.0, none, some 5.0, some 1.0]⟩]
  rowCount := 6

theorem gappy_accounts : gappy.Rectangular ∧
    ∃ i, (single "adults!BO").run gappy 1 1 .standard = .ok i ∧
      i.Accounts ["adults!BO"] gappy ∧
      (i.failure = none → ∀ testSize accuracySize, ∃ j,
        (single "adults!BO").run i.table testSize accuracySize .standard = .ok j ∧
          j.isNoOp = true ∧ j.table = i.table) := by
  have hrect : gappy.Rectangular := by
    simp [Rectangular, gappy, Column.length, Cells.length]
  have hnumeric : ∃ xs, gappy.numeric "adults!BO" = .ok xs := ⟨_, rfl⟩
  obtain ⟨⟨i, exog⟩, hi⟩ := Single.train_total hnumeric.choose_spec 1 1 .standard
  have hrun : (single "adults!BO").run gappy 1 1 .standard = .ok i := by
    rw [run, hi]
    rfl
  exact ⟨hrect, i, hrun, run_accounts hrect hrun⟩

end Trainer

end SeriesFill

end Infill
