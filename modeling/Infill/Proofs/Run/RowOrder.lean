import Infill.Proofs.Run.HeldBack
import Infill.Proofs.Table.RowOrder

/-! A run does not see in which order the rows of its table come. The dates of the rows are read one by
one, the wide table and the number of slices are the same for every order, and the time-aware families
work on nothing else. -/

namespace Infill

open Table (column?_some column_ok_iff)

/-- Cells are read one by one, in whatever order. -/
theorem mapM_take {ε β γ : Type} {f : Option β → Except ε (Option γ)} {xs : List (Option β)}
    {rows : List Nat} (hrows : rows.Perm (List.range xs.length)) {zs : List (Option γ)} :
    (rows.map fun i => xs[i]?.join).mapM f = .ok zs ↔
      ∃ ys, xs.mapM f = .ok ys ∧ (rows.map fun i => ys[i]?.join) = zs := by
  have hread : ∀ ys, xs.mapM f = .ok ys →
      (rows.map fun i => xs[i]?.join).mapM f = .ok (rows.map fun i => ys[i]?.join) := by
    intro ys hys
    rw [mapM_ok_iff] at hys ⊢
    rw [List.forall₂_map_left_iff, List.forall₂_map_right_iff, List.forall₂_same]
    intro i hi
    have hlt : i < xs.length := List.mem_range.1 (hrows.mem_iff.1 hi)
    have hlt' : i < ys.length := hys.length_eq ▸ hlt
    simpa [hlt, hlt'] using hys.get hlt hlt'
  constructor
  · intro h
    obtain ⟨ys, hys⟩ : ∃ ys, xs.mapM f = .ok ys := by
      refine mapM_total fun x hx => ?_
      obtain ⟨i, hi, rfl⟩ := List.getElem_of_mem hx
      have hmem : xs[i] ∈ rows.map fun i => xs[i]?.join :=
        List.mem_map.2 ⟨i, hrows.mem_iff.2 (List.mem_range.2 hi), by simp [hi]⟩
      obtain ⟨y, -, hy⟩ := forall₂_mem_left (mapM_ok_iff.1 h) hmem
      exact ⟨y, hy⟩
    exact ⟨ys, hys, Except.ok.inj ((hread ys hys).symm.trans h)⟩
  · rintro ⟨ys, hys, rfl⟩
    exact hread ys hys

variable {α : Type} [Scalar α]

theorem Column.parseDates_take {g : Calendar.Granularity} {c d : Column α} {rows : List Nat}
    (hrows : rows.Perm (List.range c.length)) :
    Column.parseDates g { c with cells := c.cells.take rows } = .ok d ↔
      ∃ e, c.parseDates g = .ok e ∧ { e with cells := e.cells.take rows } = d := by
  obtain ⟨name, cells⟩ := c
  cases cells with
  | datetime times => simp [parseDates, Cells.take]
  | categorical labels =>
    simp only [parseDates, Cells.take, bind_ok_iff, pure_ok_iff, mapM_take hrows,
      exists_exists_and_eq_and]
  | numeric values =>
    have htexts : (rows.map fun i => values[i]?.join).map wholeText =
        rows.map fun i => (values.map wholeText)[i]?.join := by
      rw [List.map_map]
      refine List.map_congr_left fun i _ => ?_
      rw [Function.comp_apply, List.getElem?_map]
      cases values[i]? <;> rfl
    have hrows' : rows.Perm (List.range (values.map wholeText).length) := by
      rw [List.length_map]
      exact hrows
    simp only [parseDates, Cells.take, bind_ok_iff, pure_ok_iff, htexts, mapM_take hrows',
      exists_exists_and_eq_and]

omit [Scalar α] in
theorem Table.place_take (rows : List Nat) (c : Column α) (columns : List (Column α)) :
    place { c with cells := c.cells.take rows }
        (columns.map fun d => { d with cells := d.cells.take rows }) =
      (place c columns).map fun d => { d with cells := d.cells.take rows } := by
  induction columns with
  | nil => rfl
  | cons d rest ih =>
    rw [List.map_cons, place, place]
    split_ifs
    · rfl
    · rw [ih, List.map_cons]

namespace Run

section TwoOrders

variable {t : Table α} {r : Request α} {rows : List Nat}

theorem withDates_ok_iff (ht : t.Rectangular) {date : String × Calendar.Granularity}
    {parsed : Table α} : withDates t (some date) = .ok parsed ↔
      ∃ c, t.column? date.1 = some c ∧ ∃ d, c.parseDates date.2 = .ok d ∧
        ⟨Table.place d t.columns, t.rowCount⟩ = parsed := by
  simp only [withDates, bind_ok_iff, column_ok_iff]
  refine exists_congr fun c => and_congr_right fun hc => exists_congr fun d =>
    and_congr_right fun hd => ?_
  have hmem := (column?_some hc).1
  have hlength : d.length = t.rowCount := (Column.parseDates_ok hd).2.1.trans (ht c hmem)
  rw [Table.setColumn_ok_iff]
  constructor
  · rintro (⟨hnone, -⟩ | ⟨-, -, rfl⟩)
    · exact absurd hmem (by simp [hnone])
    · rfl
  · rintro rfl
    exact Or.inr ⟨List.ne_nil_of_mem hmem, hlength, rfl⟩

theorem withDates_takeRows (ht : t.Rectangular) (hrows : rows.Perm (List.range t.rowCount))
    {date : String × Calendar.Granularity} {parsed : Table α} :
    withDates (t.takeRows rows) (some date) = .ok parsed ↔
      ∃ p, withDates t (some date) = .ok p ∧ p.takeRows rows = parsed := by
  simp only [withDates_ok_iff ht, withDates_ok_iff (t.rectangular_takeRows rows),
    t.column?_takeRows, Option.map_eq_some_iff]
  constructor
  · rintro ⟨_, ⟨c, hc, rfl⟩, _, hd, rfl⟩
    rw [Column.parseDates_take (ht c (column?_some hc).1 ▸ hrows)] at hd
    obtain ⟨d, hd, rfl⟩ := hd
    exact ⟨_, ⟨c, hc, d, hd, rfl⟩, congrArg (Table.mk · rows.length)
      (Table.place_take rows d t.columns).symm⟩
  · rintro ⟨_, ⟨c, hc, d, hd, rfl⟩, rfl⟩
    refine ⟨_, ⟨c, hc, rfl⟩, { d with cells := d.cells.take rows }, ?_, ?_⟩
    · rw [Column.parseDates_take (ht c (column?_some hc).1 ▸ hrows)]
      exact ⟨d, hd, rfl⟩
    · exact congrArg (Table.mk · rows.length) (Table.place_take rows d t.columns)

theorem distinctSlices_takeRows (ht : t.Rectangular) (hrows : rows.Perm (List.range t.rowCount))
    (slice : String) :
    distinctSlices (t.takeRows rows) (some slice) = distinctSlices t (some slice) := by
  unfold distinctSlices
  rw [Option.bind_some, Option.bind_some, t.column?_takeRows]
  cases hc : t.column? slice with
  | none => rfl
  | some c =>
    refine length_eraseDups_perm (List.Perm.filterMap id ?_)
    rw [c.cells.labels_take, Pivot.labels_eq_map ht hc]
    refine (hrows.map _).trans (.of_eq (List.map_congr_left fun row _ => ?_))
    rw [Table.labelAt, hc, Option.bind_some]

theorem wideTable_takeRows (ht : t.Rectangular) {roles : KeyRoles} {date slice : String}
    (hslice : roles.slice = some slice) {c : Column α}
    {times : List (Option Calendar.DateTime)} (hc : t.column? date = some c)
    (htimes : c.cells = .datetime times) (hrows : rows.Perm (List.range t.rowCount))
    (hsums : Scalar.SumsUnordered α ∨ t.OneRowEach date slice) :
    wideTable r (t.takeRows rows) roles date = wideTable r t roles date := by
  have hpivot : pivotOf r (t.takeRows rows) roles date = pivotOf r t roles date := by
    rw [pivotOf, t.names_takeRows, pivotOf]
  rw [wideTable_eq, wideTable_eq, hpivot,
    Pivot.spread_takeRows (p := pivotOf r t roles date) hslice ht hc htimes hrows hsums]

theorem rowPart_takeRows (t : Table α) (rows : List Nat) {fs : List Family}
    (hfs : ∀ f ∈ fs, f.isTimeAware = true) : rowPart r (t.takeRows rows) fs = rowPart r t fs := by
  rw [rowPart_timeAware r t hfs, rowPart_timeAware r _ hfs, Table.column, t.column?_takeRows,
    Table.column]
  cases t.column? r.target <;> rfl

end TwoOrders

/-- The rows of a table may come in any order, where no two of them have one date and one slice value
or the sums of numbers do not depend on their order. -/
theorem row_order_unseen {t : Table α} (ht : t.Rectangular) {r : Request α}
    {date : String × Calendar.Granularity} {slice : String}
    (hroles : rolesOf r = ⟨some date, some slice⟩)
    (hsums : Scalar.SumsUnordered α ∨
      ∀ parsed, withDates t (some date) = .ok parsed → parsed.OneRowEach date.1 slice)
    {rows : List Nat} (hrows : rows.Perm (List.range t.rowCount)) {roster : List String}
    (hroster : ∀ f ∈ families roster, f.isTimeAware = true) (report : Report α) :
    predict (t.takeRows rows) roster r = .ok report ↔ predict t roster r = .ok report := by
  have hdate : (rolesOf r).date = some date := by rw [hroles]
  have hcount : (t.takeRows rows).rowCount = t.rowCount := by
    rw [Table.takeRows, hrows.length_eq, List.length_range]
  have hparts : ∀ parsed, withDates t (some date) = .ok parsed →
      timePart r (parsed.takeRows rows) (rolesOf r) (families roster) =
        timePart r parsed (rolesOf r) (families roster) := by
    intro parsed hparsed
    have hread := withDates_reads hparsed
    have hrows' : rows.Perm (List.range parsed.rowCount) := by
      obtain ⟨c, -, d, -, rfl⟩ := (withDates_ok_iff ht).1 hparsed
      exact hrows
    obtain ⟨c, times, hc, htimes⟩ := hread.times
    have hslice : (rolesOf r).slice = some slice := by rw [hroles]
    have hwide : wideTable r (parsed.takeRows rows) (rolesOf r) date.1 =
        wideTable r parsed (rolesOf r) date.1 :=
      wideTable_takeRows (hread.rectangular ht) hslice hc htimes hrows'
        (hsums.imp_right fun hone => hone parsed hparsed)
    unfold timePart
    rw [hroles] at hwide ⊢
    dsimp only
    rw [hwide, distinctSlices_takeRows (hread.rectangular ht) hrows']
  rw [predict_ok_iff, predict_ok_iff, hdate, hcount]
  refine and_congr_right fun _ => ?_
  simp only [withDates_takeRows ht hrows]
  constructor
  · rintro ⟨_, ⟨parsed, hparsed, rfl⟩, h⟩
    rw [hparts parsed hparsed, rowPart_takeRows parsed rows hroster] at h
    exact ⟨parsed, hparsed, h⟩
  · rintro ⟨parsed, hparsed, h⟩
    refine ⟨_, ⟨parsed, hparsed, rfl⟩, ?_⟩
    rw [hparts parsed hparsed, rowPart_takeRows parsed rows hroster]
    exact h

theorem captures_oneRowEach {parsed : Table Float}
    (h : withDates captures (some ("year", .year)) = .ok parsed) :
    parsed.OneRowEach "year" "province" := by
  have hread : withDates captures (some ("year", .year)) = .ok
      { captures with columns := ⟨"year", .datetime ([some 2019, some 2019, some 2020, some 2020,
          some 2021, none].map (Option.map fun year => ⟨⟨year, 1, 1⟩, 0, 0, 0⟩))⟩ ::
        captures.columns.drop 1 } := rfl
  obtain rfl := Except.ok.inj (hread.symm.trans h)
  decide

def sightingsRequest : Request (Exact ℚ) where
  keys := ["date", "province"]
  target := "adults"
  nullifyLast := none
  executionId := "sightings"
  settings := .standard

/-- The captures come last row first. Of the sightings two rows of one day and province change places,
and their average is taken all the same. -/
theorem captures_reversed : (∃ report,
      predict captures ["univariateTS", "multivariateTS"] capturesRequest = .ok report ∧
      predict (captures.takeRows [5, 4, 3, 2, 1, 0]) ["univariateTS", "multivariateTS"]
        capturesRequest = .ok report) ∧
    ∀ report, predict (Pivot.sightingRows.takeRows [1, 0, 2, 3]) ["timeDecisionTree"]
        sightingsRequest = .ok report ↔
      predict Pivot.sightingRows ["timeDecisionTree"] sightingsRequest = .ok report := by
  obtain ⟨report, h⟩ := captures_run ["univariateTS", "multivariateTS"]
  have hrows : captures.Rectangular := captures_admissible.rectangular
  have hfamilies : ∀ f ∈ families ["univariateTS", "multivariateTS"], f.isTimeAware = true := by
    decide
  refine ⟨⟨report, h, ?_⟩, fun report => ?_⟩
  · have hroles : rolesOf capturesRequest = ⟨some ("year", .year), some "province"⟩ := rfl
    exact (row_order_unseen hrows hroles (.inr fun _ => captures_oneRowEach) (by decide) hfamilies
      report).2 h
  · have hroles : rolesOf sightingsRequest = ⟨some ("date", .day), some "province"⟩ := rfl
    exact row_order_unseen Pivot.sightings_fit.rectangular hroles (.inl inferInstance) (by decide)
      (by decide) report

end Run

end Infill
