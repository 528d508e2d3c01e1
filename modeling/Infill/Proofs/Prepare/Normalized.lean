import Infill.Prepare
import Infill.Proofs.Table.RowOrder

/-! Normalising a table. A column goes when no row of the whole table has a value in it, and a row goes
when it misses one of the columns that stay, apart from the target and the keys. Nothing else is
lost: the columns and the rows that stay keep their order, and every cell is what it was. -/

namespace Infill

variable {α : Type}

inductive Cell (α : Type)
  | number (value : Option α)
  | label (label : Option String)
  | time (time : Option Calendar.DateTime)

namespace Cells

def kind : Cells α → CellType
  | .numeric _ => .numeric
  | .categorical _ => .categorical
  | .datetime _ => .datetime

def cell? (cells : Cells α) (row : Nat) : Option (Cell α) :=
  match cells with
  | .numeric xs => xs[row]?.map .number
  | .categorical xs => xs[row]?.map .label
  | .datetime xs => xs[row]?.map .time

/-- The cells of the given rows, one for each of them, and nothing else. -/
structure Picked (rows : List Nat) (cells picked : Cells α) : Prop where
  kind : picked.kind = cells.kind
  cell : ∀ i, picked.cell? i = rows[i]?.bind cells.cell?

theorem picked_take {cells : Cells α} {rows : List Nat} (h : ∀ row ∈ rows, row < cells.length) :
    cells.Picked rows (cells.take rows) := by
  refine ⟨by cases cells <;> rfl, fun i => ?_⟩
  cases hrow : rows[i]? with
  | none => cases cells <;> simp [take, cell?, hrow]
  | some row =>
    have hlt : row < cells.length := h row (List.mem_of_getElem? hrow)
    cases cells <;>
    · rw [length] at hlt
      simp [take, cell?, hrow, hlt]

variable [Scalar α]

theorem isMissing_eq (cells : Cells α) (row : Nat) :
    cells.isMissing row = match cells.cell? row with
      | some (.number x) => (Scalar.observed x).isNone
      | some (.label s) => s.isNone
      | some (.time d) => d.isNone
      | none => true := by
  cases cells with
  | numeric xs =>
    rw [isMissing, cell?]
    cases xs[row]? <;> rfl
  | categorical xs =>
    rw [isMissing, cell?]
    cases xs[row]? <;> rfl
  | datetime xs =>
    rw [isMissing, cell?]
    cases xs[row]? <;> rfl

theorem Picked.isMissing {cells picked : Cells α} {rows : List Nat} (h : cells.Picked rows picked)
    {i row : Nat} (hrow : rows[i]? = some row) : picked.isMissing i = cells.isMissing row := by
  rw [isMissing_eq, isMissing_eq, h.cell, hrow, Option.bind_some]

end Cells

variable [Scalar α]

def Column.Valued (c : Column α) : Prop := ∃ row < c.length, c.cells.isMissing row = false

instance (c : Column α) : Decidable c.Valued :=
  inferInstanceAs (Decidable (∃ row < c.length, c.cells.isMissing row = false))

theorem Column.valued_iff {c : Column α} : c.Valued ↔ c.cells.missingCount < c.length := by
  have hall : c.cells.missingCount = c.length ↔ ¬ c.Valued := by
    have hlength : c.length = ((List.range c.length).map c.cells.isMissing).length := by simp
    rw [Cells.missingCount, Cells.mask_eq, ← Column.length]
    nth_rewrite 2 [hlength]
    rw [List.count_eq_length]
    simp [Valued]
  have hle : c.cells.missingCount ≤ c.length := by
    rw [Cells.missingCount, Cells.mask_eq, ← Column.length]
    exact List.count_le_length.trans_eq (by simp)
  constructor
  · intro hvalued
    exact lt_of_le_of_ne hle fun heq => hall.1 heq hvalued
  · intro hlt
    by_contra hvalued
    exact hlt.ne (hall.2 hvalued)

def Table.valued (t : Table α) : List (Column α) := t.columns.filter fun c => c.Valued

namespace Prepare

variable {t : Table α} {keys : List String} {target : String} {out : Prepared α}

omit [Scalar α] in
/-- Neither the target nor a key, however they are written. -/
def IsCovariate (keys : List String) (target : String) (c : Column α) : Prop :=
  Text.lower c.name ≠ Text.lower target ∧ Text.lower c.name ∉ keys.map Text.lower

instance (keys : List String) (target : String) (c : Column α) :
    Decidable (IsCovariate keys target c) := inferInstanceAs (Decidable (_ ∧ _))

def completeRows (t : Table α) (keys : List String) (target : String) : List Nat :=
  (List.range t.rowCount).filter fun row =>
    ∀ c ∈ t.valued, IsCovariate keys target c → c.cells.isMissing row = false

structure Normalized (t : Table α) (keys : List String) (target : String) (out : Prepared α) :
    Prop where
  lowerKeys : out.keys = keys.map Text.lower
  lowerTarget : out.target = Text.lower target
  rowCount : out.table.rowCount = (completeRows t keys target).length
  columns : List.Forall₂ (fun c d => d.name = Text.lower c.name ∧
    c.cells.Picked (completeRows t keys target) d.cells) t.valued out.table.columns
  wellFormed : out.table.WellFormed
  complete : ∀ c ∈ out.table.columns, c.name ≠ out.target → c.name ∉ out.keys →
    ∀ row < out.table.rowCount, c.cells.isMissing row = false

theorem loweredColumns_eq (t : Table α) :
    loweredColumns t = t.valued.map fun c => { c with name := Text.lower c.name } := by
  simp only [loweredColumns, Table.valued, Column.valued_iff]

theorem normalize_ok_iff : normalize t keys target = .ok out ↔ t.rowCount ≠ 0 ∧
    ∃ lowered, Table.ofColumns (loweredColumns t) = .ok lowered ∧
      out = ⟨lowered.takeRows ((List.range lowered.rowCount).filter fun row =>
        (lowered.columns.filter fun c => c.name ≠ Text.lower target &&
          !(keys.map Text.lower).contains c.name).all fun c => !c.cells.isMissing row),
        keys.map Text.lower, Text.lower target⟩ := by
  unfold normalize
  rw [check_ok_iff]
  simp only [bind_ok_iff, pure_ok_iff, eq_comm (b := out)]

theorem length_lowered (ht : t.Rectangular) : ∀ c ∈ loweredColumns t, c.length = t.rowCount := by
  intro c hc
  rw [loweredColumns_eq] at hc
  obtain ⟨d, hd, rfl⟩ := List.mem_map.1 hc
  exact ht d (List.mem_filter.1 hd).1

theorem normalize_error_iff (ht : t.Rectangular) {e : Error} :
    normalize t keys target = .error e ↔ t.rowCount = 0 ∧ e = .emptyData := by
  by_cases hrows : t.rowCount = 0
  · have hfailed : normalize t keys target = .error .emptyData := by
      unfold normalize
      rw [if_pos hrows]
      rfl
    rw [hfailed]
    simp [hrows, eq_comm]
  · obtain ⟨lowered, hlowered⟩ := Table.ofColumns_total (length_lowered ht)
    have hnot : normalize t keys target ≠ .error e := by
      rw [normalize_ok_iff.2 ⟨hrows, lowered, hlowered, rfl⟩]
      intro h
      cases h
    simp [hnot, hrows]

/-- The columns that stay make a table, if there are any and their names stay apart. -/
theorem ofColumns_lowered (ht : t.Rectangular) (hvalued : t.valued ≠ [])
    (hnames : (t.valued.map fun c => Text.lower c.name).Nodup) :
    Table.ofColumns (loweredColumns t) = .ok ⟨loweredColumns t, t.rowCount⟩ := by
  apply Table.ofColumns_distinct _ _ (length_lowered ht)
  · rw [loweredColumns_eq]
    simpa using hvalued
  · rwa [loweredColumns_eq, List.map_map]

theorem keptRows_eq (t : Table α) (keys : List String) (target : String) :
    ((List.range t.rowCount).filter fun row =>
      ((loweredColumns t).filter fun c => c.name ≠ Text.lower target &&
        !(keys.map Text.lower).contains c.name).all fun c => !c.cells.isMissing row) =
      completeRows t keys target := by
  apply List.filter_congr
  intro row _
  rw [loweredColumns_eq, Bool.eq_iff_iff]
  simp [IsCovariate, or_iff_not_imp_left]

theorem mem_completeRows {row : Nat} : row ∈ completeRows t keys target ↔ row < t.rowCount ∧
    ∀ c ∈ t.valued, IsCovariate keys target c → c.cells.isMissing row = false := by
  simp [completeRows]

theorem normalized_of_lowered (ht : t.Rectangular)
    (hnames : (t.valued.map fun c => Text.lower c.name).Nodup) :
    Normalized t keys target ⟨Table.takeRows ⟨loweredColumns t, t.rowCount⟩
      (completeRows t keys target), keys.map Text.lower, Text.lower target⟩ := by
  have hpicked : ∀ c ∈ t.valued, c.cells.Picked (completeRows t keys target)
      (c.cells.take (completeRows t keys target)) := by
    intro c hc
    apply Cells.picked_take
    intro row hrow
    have hlength := ht c (List.mem_filter.1 hc).1
    rw [Column.length] at hlength
    exact hlength ▸ (mem_completeRows.1 hrow).1
  have hcolumns : (Table.takeRows ⟨loweredColumns t, t.rowCount⟩
      (completeRows t keys target)).columns = t.valued.map fun c =>
        ⟨Text.lower c.name, c.cells.take (completeRows t keys target)⟩ := by
    rw [Table.takeRows, loweredColumns_eq, List.map_map]
    rfl
  constructor
  case lowerKeys => rfl
  case lowerTarget => rfl
  case rowCount => rfl
  case columns =>
    rw [hcolumns, List.forall₂_map_right_iff, List.forall₂_same]
    exact fun c hc => ⟨rfl, hpicked c hc⟩
  case wellFormed =>
    refine ⟨?_, Table.rectangular_takeRows _ _⟩
    rw [Table.names, hcolumns, List.map_map]
    exact hnames
  case complete =>
    intro d hd htarget hkeys row hrow
    rw [hcolumns] at hd
    obtain ⟨c, hc, rfl⟩ := List.mem_map.1 hd
    obtain ⟨source, hsource⟩ : ∃ source, (completeRows t keys target)[row]? = some source :=
      ⟨_, List.getElem?_eq_getElem hrow⟩
    rw [(hpicked c hc).isMissing hsource]
    exact (mem_completeRows.1 (List.mem_of_getElem? hsource)).2 c hc ⟨htarget, hkeys⟩

/-- A table with rows is normalised, and loses the columns without a value and the rows without all of
the covariates. -/
theorem normalize_keeps (ht : t.Rectangular) (keys : List String) (target : String) :
    (∀ e, normalize t keys target = .error e ↔ t.rowCount = 0 ∧ e = .emptyData) ∧
      (t.rowCount ≠ 0 → t.valued ≠ [] → (t.valued.map fun c => Text.lower c.name).Nodup →
        ∃ out, normalize t keys target = .ok out ∧ Normalized t keys target out) := by
  constructor
  · intro e
    exact normalize_error_iff ht
  · intro hrows hvalued hnames
    refine ⟨_, normalize_ok_iff.2 ⟨hrows, _, ofColumns_lowered ht hvalued hnames, rfl⟩, ?_⟩
    rw [keptRows_eq]
    exact normalized_of_lowered ht hnames

def roadside : Table (Exact ℚ) where
  columns := [
    ⟨"Month", .categorical [some "03", none, some "04", some "05"]⟩,
    ⟨"ΟΔΟΣ", .categorical [some "a", some "b", some "b", some "a"]⟩,
    ⟨"TRAPS", .numeric [some (.number 2), some (.number 3), some .nan, some (.number 4)]⟩,
    ⟨"Humidity", .numeric [none, some .nan, none, none]⟩,
    ⟨"Adults", .numeric [some (.number 7), none, some (.number 1), some .nan]⟩]
  rowCount := 4

/-- The third row goes for want of its traps. That no humidity is known costs the column alone, and a
missing month or catch costs nothing. -/
theorem roadside_normalized : roadside.Rectangular ∧ roadside.rowCount ≠ 0 ∧ roadside.valued ≠ [] ∧
    (roadside.valued.map fun c => Text.lower c.name).Nodup ∧
    (∃ out, normalize roadside ["MONTH"] "adultS" = .ok out ∧
      Normalized roadside ["MONTH"] "adultS" out) ∧
    roadside.valued.map (fun c => Text.lower c.name) = ["month", "οδος", "traps", "adults"] ∧
    completeRows roadside ["MONTH"] "adultS" = [0, 1, 3] := by
  have hrectangular : roadside.Rectangular := by
    simp [Table.Rectangular, roadside, Column.length, Cells.length]
  have hrows : roadside.rowCount ≠ 0 := by decide
  have hnames : roadside.valued.map (fun c => Text.lower c.name) =
      ["month", "οδος", "traps", "adults"] := by decide +kernel
  have hvalued : roadside.valued ≠ [] := by
    intro hnone
    rw [hnone] at hnames
    cases hnames
  have hnodup : (roadside.valued.map fun c => Text.lower c.name).Nodup := by
    rw [hnames]
    decide
  refine ⟨hrectangular, hrows, hvalued, hnodup, ?_, hnames, by decide +kernel⟩
  exact (normalize_keeps hrectangular _ _).2 hrows hvalued hnodup

end Prepare

end Infill
