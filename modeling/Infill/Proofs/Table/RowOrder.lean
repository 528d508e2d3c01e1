import Infill.Proofs.Pick
import Infill.Proofs.Table.Sheet

/-! The order of the rows of a long table. Rows in another order have the same dates, the same labels
and, for every date and label, the same numbers; so the table is spread to the same wide table, where
an average is taken of one number or does not depend on the order of its numbers. -/

namespace Infill

open Calendar (DateTime)
open Table (column?_some column_ok_iff numeric_ok_iff times_ok_iff)

/-- Rows that are read in an order of their own. -/
theorem filterMap_range_getElem? {β : Type} (rows : List Nat) (f : Nat → Option β) :
    ((List.range rows.length).filterMap fun i => rows[i]?.bind f) = rows.filterMap f := by
  have hrows : rows = (List.range rows.length).filterMap (rows[·]?) := (pick_range rows).symm
  conv_rhs => rw [hrows]
  rw [List.filterMap_filterMap]

theorem length_le_one_of_nodup {β : Type} {xs : List β} (h : xs.Nodup)
    (hsame : ∀ a ∈ xs, ∀ b ∈ xs, a = b) : xs.length ≤ 1 := by
  match xs with
  | [] | [_] => simp
  | a :: b :: rest =>
    obtain rfl := hsame a (by simp) b (by simp)
    simp at h

variable {α : Type} [Scalar α]

namespace Cells

theorem labels_take (cells : Cells α) (rows : List Nat) :
    (cells.take rows).labels = rows.map cells.label? := by
  cases cells with
  | numeric xs =>
    rw [take, labels, List.map_map]
    refine List.map_congr_left fun i _ => ?_
    rw [Function.comp_apply, label?]
    cases xs[i]? <;> rfl
  | categorical xs => rfl
  | datetime xs =>
    rw [take, labels, List.map_map]
    refine List.map_congr_left fun i _ => ?_
    rw [Function.comp_apply, label?]
    cases xs[i]? <;> rfl

theorem number?_take (cells : Cells α) (rows : List Nat) (i : Nat) :
    (cells.take rows).number? i = rows[i]?.bind cells.number? := by
  cases cells with
  | numeric xs =>
    rw [take, number?, List.getElem?_map]
    cases rows[i]? with
    | none => rfl
    | some row =>
      rw [Option.map_some, Option.bind_some, Option.bind_some, number?]
      cases xs[row]? <;> rfl
  | categorical xs => cases rows[i]? <;> rfl
  | datetime xs => cases rows[i]? <;> rfl

omit [Scalar α] in
theorem time?_take (cells : Cells α) (rows : List Nat) (i : Nat) :
    (cells.take rows).time? i = rows[i]?.bind cells.time? := by
  cases cells with
  | numeric xs => cases rows[i]? <;> rfl
  | categorical xs => cases rows[i]? <;> rfl
  | datetime xs =>
    rw [take, time?, List.getElem?_map]
    cases rows[i]? <;> rfl

theorem label?_take (cells : Cells α) (rows : List Nat) (i : Nat) :
    (cells.take rows).label? i = rows[i]?.bind cells.label? := by
  rw [label?_eq, labels_take, List.getElem?_map]
  cases rows[i]? <;> rfl

omit [Scalar α] in
theorem length_take (cells : Cells α) (rows : List Nat) :
    (cells.take rows).length = rows.length := by
  cases cells <;> simp [take, length]

end Cells

namespace Table

variable {t : Table α} {rows : List Nat}

omit [Scalar α] in
theorem column?_takeRows (t : Table α) (rows : List Nat) (name : String) :
    (t.takeRows rows).column? name =
      (t.column? name).map fun c => { c with cells := c.cells.take rows } := by
  rw [column?, takeRows, List.find?_map, column?]
  rfl

omit [Scalar α] in
theorem names_takeRows (t : Table α) (rows : List Nat) : (t.takeRows rows).names = t.names := by
  simp [names, takeRows, Function.comp_def]

omit [Scalar α] in
theorem rectangular_takeRows (t : Table α) (rows : List Nat) : (t.takeRows rows).Rectangular := by
  intro c hc
  obtain ⟨d, -, rfl⟩ := List.mem_map.1 hc
  exact d.cells.length_take rows

omit [Scalar α] in
theorem timeAt_takeRows (t : Table α) (rows : List Nat) (name : String) (i : Nat) :
    (t.takeRows rows).timeAt name i = rows[i]?.bind (t.timeAt name) := by
  unfold timeAt
  rw [column?_takeRows]
  cases t.column? name with
  | none => cases rows[i]? <;> rfl
  | some c => exact c.cells.time?_take rows i

theorem labelAt_takeRows (t : Table α) (rows : List Nat) (name : String) (i : Nat) :
    (t.takeRows rows).labelAt name i = rows[i]?.bind (t.labelAt name) := by
  unfold labelAt
  rw [column?_takeRows]
  cases t.column? name with
  | none => cases rows[i]? <;> rfl
  | some c => exact c.cells.label?_take rows i

theorem numberAt_takeRows (t : Table α) (rows : List Nat) (name : String) (i : Nat) :
    (t.takeRows rows).numberAt name i = rows[i]?.bind (t.numberAt name) := by
  unfold numberAt
  rw [column?_takeRows]
  cases t.column? name with
  | none => cases rows[i]? <;> rfl
  | some c => exact c.cells.number?_take rows i

def OneRowEach (t : Table α) (date slice : String) : Prop :=
  ∀ i < t.rowCount, ∀ j < t.rowCount, (t.timeAt date i).isSome ∧ (t.labelAt slice i).isSome ∧
    t.timeAt date j = t.timeAt date i ∧ t.labelAt slice j = t.labelAt slice i → i = j

instance (t : Table α) (date slice : String) : Decidable (t.OneRowEach date slice) :=
  inferInstanceAs (Decidable (∀ i < t.rowCount, ∀ j < t.rowCount, _))

end Table

namespace Pivot

variable {p : Pivot} {slice : String} {t : Table α} {rows : List Nat}

/-- Numbers in another order have the same average: there is one of them at most, or their sum does
not depend on the order. -/
theorem averageOf_perm {xs ys : List α} (h : xs.Perm ys)
    (hsums : Scalar.SumsUnordered α ∨ ys.length ≤ 1) : averageOf xs = averageOf ys := by
  rcases hsums with hsums | hone
  · cases ys with
    | nil => rw [h.eq_nil]
    | cons y ys =>
      cases xs with
      | nil => exact absurd h.symm.eq_nil (by simp)
      | cons x xs => simp only [averageOf, hsums.sum_perm h, h.length_eq]
  · rcases ys with - | ⟨y, - | ⟨z, rest⟩⟩
    · rw [h.eq_nil]
    · rw [List.perm_singleton.1 h]
    · exact absurd hone (by simp)

theorem numbersIn_eq (p : Pivot) (slice : String) (t : Table α) (measure label : String)
    (time : DateTime) : p.numbersIn slice t measure label time =
      (List.range t.rowCount).filterMap fun row =>
        if t.timeAt p.date row = some time ∧ t.labelAt slice row = some label then
          t.numberAt measure row else none := by
  rw [numbersIn, List.filterMap_filter]
  simp only [decide_eq_true_eq]

theorem numbersIn_takeRows (p : Pivot) (slice : String) (t : Table α) (rows : List Nat)
    (measure label : String) (time : DateTime) :
    p.numbersIn slice (t.takeRows rows) measure label time = rows.filterMap fun row =>
      if t.timeAt p.date row = some time ∧ t.labelAt slice row = some label then
        t.numberAt measure row else none := by
  rw [numbersIn_eq, ← filterMap_range_getElem? rows]
  refine List.filterMap_congr fun i _ => ?_
  rw [t.timeAt_takeRows, t.labelAt_takeRows, t.numberAt_takeRows]
  cases rows[i]? <;> simp

theorem length_numbersIn_le_one (hone : t.OneRowEach p.date slice) (measure label : String)
    (time : DateTime) : (p.numbersIn slice t measure label time).length ≤ 1 := by
  apply (List.length_filterMap_le _ _).trans
  apply length_le_one_of_nodup (List.nodup_range.filter _)
  intro i hi j hj
  obtain ⟨hi, hgroup⟩ := List.mem_filter.1 hi
  obtain ⟨hj, hgroup'⟩ := List.mem_filter.1 hj
  obtain ⟨htime, hlabel⟩ := of_decide_eq_true hgroup
  obtain ⟨htime', hlabel'⟩ := of_decide_eq_true hgroup'
  apply hone i (List.mem_range.1 hi) j (List.mem_range.1 hj)
  rw [htime, hlabel]
  exact ⟨rfl, rfl, htime', hlabel'⟩

theorem averageOf_takeRows (hrows : rows.Perm (List.range t.rowCount))
    (hsums : Scalar.SumsUnordered α ∨ t.OneRowEach p.date slice) (measure label : String)
    (time : DateTime) : averageOf (p.numbersIn slice (t.takeRows rows) measure label time) =
      averageOf (p.numbersIn slice t measure label time) := by
  refine averageOf_perm ?_ (hsums.imp_right fun hone => length_numbersIn_le_one hone ..)
  rw [numbersIn_takeRows, numbersIn_eq]
  exact hrows.filterMap _

/-- The columns of a sliced table, cell by cell. -/
theorem slicedColumns_averages (ht : t.Rectangular) {date keys : Column α}
    {times : List (Option DateTime)} (hdate : t.column? p.date = some date)
    (htimes : date.cells = .datetime times) (hkeys : t.column? slice = some keys) :
    p.slicedColumns t slice date = .ok (⟨p.date, .datetime ((timeAxis times).map some)⟩ ::
      (p.spreadMeasures t ×ˢ sliceAxis keys.cells.labels).map fun key =>
        ⟨SeriesName.compose p.separator key.1 key.2, .numeric ((timeAxis times).map fun time =>
          averageOf (p.numbersIn slice t key.1 key.2 time))⟩) := by
  obtain ⟨series, hseries⟩ : ∃ series, (p.spreadMeasures t).mapM (fun m =>
      (t.numeric m).map (p.seriesOf times keys.cells.labels m)) = .ok series := by
    refine mapM_total fun m hm => ?_
    obtain ⟨-, -, -, -, xs, hx⟩ := mem_spreadMeasures.1 hm
    exact ⟨_, map_ok_iff.2 ⟨xs, hx, rfl⟩⟩
  rw [← series_flatten ht hdate htimes hkeys hseries]
  simp only [slicedColumns_eq, bind_ok_iff, times_ok_iff, column_ok_iff]
  exact ⟨times, htimes, keys, hkeys, series, hseries, rfl⟩

omit [Scalar α] in
theorem isNumeric_takeRows (t : Table α) (rows : List Nat) (name : String) :
    isNumeric (t.takeRows rows) name = isNumeric t name := by
  unfold isNumeric
  rw [t.column?_takeRows]
  rcases t.column? name with - | ⟨_, cells⟩
  · rfl
  · cases cells <;> rfl

omit [Scalar α] in
theorem spreadMeasures_takeRows (p : Pivot) (t : Table α) (rows : List Nat) :
    p.spreadMeasures (t.takeRows rows) = p.spreadMeasures t := by
  unfold spreadMeasures
  rw [t.names_takeRows]
  simp only [isNumeric_takeRows]

/-- The axes do not tell the order of the rows. -/
theorem timeAxis_perm {times times' : List (Option DateTime)} (h : times'.Perm times) :
    timeAxis times' = timeAxis times := by
  refine Axis.ascending_eq DateTime.before_strict (timeAxis_ascending times) fun time => ?_
  rw [timeAxis, Axis.mem_ascending]
  exact (h.filterMap id).mem_iff

theorem sliceAxis_perm {slices slices' : List (Option String)} (h : slices'.Perm slices) :
    sliceAxis slices' = sliceAxis slices := by
  refine Axis.ascending_eq Axis.strict_lt ?_ fun label => ?_
  · exact Axis.pairwise_ascending Axis.strict_lt _
  · rw [sliceAxis, Axis.mem_ascending]
    exact (h.filterMap id).mem_iff

/-- A table with its rows in another order is spread to the same wide table. -/
theorem spread_takeRows (hp : p.slice = some slice) (ht : t.Rectangular) {date : Column α}
    {times : List (Option DateTime)} (hdate : t.column? p.date = some date)
    (htimes : date.cells = .datetime times) (hrows : rows.Perm (List.range t.rowCount))
    (hsums : Scalar.SumsUnordered α ∨ t.OneRowEach p.date slice) :
    p.spread (t.takeRows rows) = p.spread t := by
  have hdate' := t.column?_takeRows rows p.date
  rw [hdate, Option.map_some, htimes] at hdate'
  rw [spread_eq, spread_eq, column_ok_iff.2 hdate, column_ok_iff.2 hdate']
  refine congrArg (· >>= fun columns => Table.ofColumns columns >>= p.closedIf) ?_
  rw [columnsFor, columnsFor, hp]
  dsimp only
  cases hkeys : t.column? slice with
  | none =>
    rw [slicedColumns_eq, slicedColumns_eq, times_ok_iff.2 htimes, times_ok_iff.2 rfl, Table.column,
      Table.column, t.column?_takeRows, hkeys]
    rfl
  | some keys =>
    have hkeys' := t.column?_takeRows rows slice
    rw [hkeys, Option.map_some] at hkeys'
    rw [slicedColumns_averages ht hdate htimes hkeys,
      slicedColumns_averages (t.rectangular_takeRows rows) hdate' rfl hkeys',
      p.spreadMeasures_takeRows, keys.cells.labels_take]
    have htimeAxis : timeAxis (rows.map fun i => times[i]?.join) = timeAxis times := by
      have hlength : times.length = t.rowCount := by
        rw [← ht date (column?_some hdate).1, Column.length, htimes, Cells.length]
      have hall := eq_map_range hlength
      refine timeAxis_perm ?_
      conv_rhs => rw [hall]
      exact hrows.map _
    have hsliceAxis : sliceAxis (rows.map keys.cells.label?) = sliceAxis keys.cells.labels := by
      refine sliceAxis_perm ?_
      rw [labels_eq_map ht hkeys]
      refine (hrows.map _).trans (.of_eq (List.map_congr_left fun row _ => ?_))
      rw [Table.labelAt, hkeys, Option.bind_some]
    rw [htimeAxis, hsliceAxis]
    simp only [averageOf_takeRows hrows hsums]

end Pivot

end Infill
