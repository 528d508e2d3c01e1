import Mathlib.Data.String.Basic
import Infill.Proofs.Scalar.Whole
import Infill.Proofs.Table.Axis
import Infill.Proofs.Table.Shape
import Infill.Table.Features

/-! What the features of a table tell of its rows. Every column but the target has a block of entries of
its own in each row. The block of a number or a date tells whether the cell is missing; that of a
label tells the labels of the column apart, all but the first one, which reads like a missing
label. -/

namespace Infill

variable {α : Type}

structure Block (α : Type) where
  names : List String
  row : Nat → List α

variable [Scalar α]

namespace Feature

theorem isNaN_ofNumber [Scalar.AbsorbsNaN α] (cell : Option α) :
    Scalar.isNaN (ofNumber cell) = (Scalar.observed cell).isNone := by
  cases cell with
  | none => exact Scalar.AbsorbsNaN.isNaN_nan
  | some x =>
    change Scalar.isNaN x = (if Scalar.isNaN x then none else some x).isNone
    cases Scalar.isNaN x <;> rfl

theorem isNaN_ofTime [Scalar.AbsorbsNaN α] [Scalar.CountsWhole α]
    (cell : Option Calendar.DateTime) :
    Scalar.isNaN (ofTime cell : α) = cell.isNone := by
  cases cell with
  | none => exact Scalar.AbsorbsNaN.isNaN_nan
  | some time => exact Scalar.CountsWhole.isNaN_intCast _

theorem ofLabel_eq_one_iff [Scalar.CountsWhole α] {label : String} {cell : Option String} :
    (ofLabel label cell : α) = 1 ↔ cell = some label := by
  unfold ofLabel
  split_ifs with h
  · exact iff_of_true rfl h
  · exact iff_of_false Scalar.CountsWhole.one_ne_zero.symm h

def levelsOf (labels : List (Option String)) : List String :=
  Axis.ascending (fun a b => decide (a < b)) (labels.filterMap id)

theorem mem_levelsOf {labels : List (Option String)} {label : String} :
    label ∈ levelsOf labels ↔ some label ∈ labels := by
  simp [levelsOf, Axis.mem_ascending]

theorem levelsOf_nodup (labels : List (Option String)) : (levelsOf labels).Nodup :=
  Axis.nodup_ascending Axis.strict_lt _

def indicators (levels : List String) (cell : Option String) : List α :=
  levels.tail.map (ofLabel · cell)

/-- A missing label and the first one are not told apart. -/
def IsBase (levels : List String) (cell : Option String) : Prop :=
  cell = none ∨ cell = levels.head?

section Indicators

variable {levels : List String} {cell cell' : Option String}

theorem getElem?_indicators (levels : List String) (cell : Option String) (k : Nat) :
    (indicators levels cell : List α)[k]? = levels.tail[k]?.map (ofLabel · cell) :=
  List.getElem?_map

theorem indicators_binary {x : α} (hx : x ∈ indicators levels cell) : x = 0 ∨ x = 1 := by
  obtain ⟨label, -, rfl⟩ := List.mem_map.1 hx
  unfold ofLabel
  split_ifs
  · exact .inr rfl
  · exact .inl rfl

/-- A label that is indicated is not the first. -/
theorem not_base_of_mem_tail (hlevels : levels.Nodup) {label : String} (h : label ∈ levels.tail) :
    ¬ IsBase levels (some label) := by
  cases levels with
  | nil => cases h
  | cons first rest =>
    rintro (hnone | hhead)
    · cases hnone
    · obtain rfl := Option.some.inj hhead
      exact (List.nodup_cons.1 hlevels).1 h

/-- A cell is read like the first label, or has a label with an entry of its own. -/
theorem base_or_mem_tail (hcell : ∀ label, cell = some label → label ∈ levels) :
    IsBase levels cell ∨ ∃ label ∈ levels.tail, cell = some label := by
  cases cell with
  | none => exact .inl (.inl rfl)
  | some label =>
    cases levels with
    | nil => cases hcell label rfl
    | cons first rest =>
      rcases List.mem_cons.1 (hcell label rfl) with rfl | hrest
      · exact .inl (.inr rfl)
      · exact .inr ⟨label, hrest, rfl⟩

variable [Scalar.CountsWhole α]

theorem indicators_at_most_one (hlevels : levels.Nodup) {k k' : Nat}
    (hk : (indicators levels cell : List α)[k]? = some 1)
    (hk' : (indicators levels cell : List α)[k']? = some 1) : k = k' := by
  rw [getElem?_indicators, Option.map_eq_some_iff] at hk hk'
  obtain ⟨label, hplace, hone⟩ := hk
  obtain ⟨label', hplace', hone'⟩ := hk'
  have hsame : some label = some label' :=
    (ofLabel_eq_one_iff.1 hone).symm.trans (ofLabel_eq_one_iff.1 hone')
  have hlt := (List.getElem?_eq_some_iff.1 hplace).1
  apply (List.getElem?_inj hlt (hlevels.sublist (List.tail_sublist levels))).1
  rw [hplace, hplace', hsame]

theorem eq_some_of_indicators_eq (h : (indicators levels cell : List α) = indicators levels cell')
    {label : String} (hlabel : label ∈ levels.tail) (hcell : cell = some label) :
    cell' = some label := by
  have hentry : (ofLabel label cell : α) = ofLabel label cell' :=
    List.map_inj_left.1 h label hlabel
  exact ofLabel_eq_one_iff.1 (hentry.symm.trans (ofLabel_eq_one_iff.2 hcell))

omit [Scalar.CountsWhole α] in
theorem indicators_base (hlevels : levels.Nodup) (h : IsBase levels cell) :
    (indicators levels cell : List α) = levels.tail.map fun _ => 0 := by
  apply List.map_congr_left
  intro label hlabel
  unfold ofLabel
  rw [if_neg]
  rintro rfl
  exact not_base_of_mem_tail hlevels hlabel h

theorem indicators_eq_iff (hlevels : levels.Nodup)
    (hcell : ∀ label, cell = some label → label ∈ levels)
    (hcell' : ∀ label, cell' = some label → label ∈ levels) :
    (indicators levels cell : List α) = indicators levels cell' ↔
      cell = cell' ∨ IsBase levels cell ∧ IsBase levels cell' := by
  constructor
  · intro h
    rcases base_or_mem_tail hcell with hbase | ⟨label, hlabel, rfl⟩
    · rcases base_or_mem_tail hcell' with hbase' | ⟨label, hlabel, rfl⟩
      · exact .inr ⟨hbase, hbase'⟩
      · exact .inl (eq_some_of_indicators_eq h.symm hlabel rfl)
    · exact .inl (eq_some_of_indicators_eq h hlabel rfl).symm
  · rintro (rfl | ⟨hbase, hbase'⟩)
    · rfl
    · rw [indicators_base hlevels hbase, indicators_base hlevels hbase']

end Indicators

end Feature

namespace Block

/-- A number or a date is one entry, which is no number where the cell is missing. -/
structure Measures (c : Column α) (rows : Nat) (b : Block α) : Prop where
  names : b.names = [c.name]
  entry : ∀ i < rows, ∃ x, b.row i = [x] ∧
    (Scalar.isNaN x = true ↔ c.cells.isMissing i = true)

/-- Labels have an entry for each of them but the first, which is one in the rows of the label. -/
structure Indicates (separator : Char) (name : String) (labels : List (Option String))
    (levels : List String) (rows : Nat) (b : Block α) : Prop where
  sorted : levels.Pairwise (· < ·)
  occurs : ∀ label, label ∈ levels ↔ some label ∈ labels
  names : b.names = levels.tail.map (SeriesName.compose separator name)
  length : ∀ i, (b.row i).length = levels.tail.length
  entry : ∀ i < rows, ∀ (k : Nat) label, levels.tail[k]? = some label →
    (b.row i)[k]? = some (if labels[i]? = some (some label) then 1 else 0)
  binary : ∀ i < rows, ∀ x ∈ b.row i, x = 0 ∨ x = 1
  at_most_one : ∀ i < rows, ∀ k k' : Nat, (b.row i)[k]? = some 1 → (b.row i)[k']? = some 1 →
    k = k'
  agree_iff : ∀ i < rows, ∀ j < rows, b.row i = b.row j ↔
    labels[i]? = labels[j]? ∨
      Feature.IsBase levels labels[i]?.join ∧ Feature.IsBase levels labels[j]?.join

def Encodes (separator : Char) (rows : Nat) (c : Column α) (b : Block α) : Prop :=
  match c.cells with
  | .categorical labels => ∃ levels, b.Indicates separator c.name labels levels rows
  | _ => b.Measures c rows

def ofColumn (separator : Char) (c : Column α) : Block α where
  names := (Feature.ofColumn separator c).map (·.name)
  row i := (Feature.ofColumn separator c).map fun f => f.values.getD i Scalar.nan

theorem row_ofColumn (separator : Char) (name : String) {labels : List (Option String)} {i : Nat}
    (hi : i < labels.length) :
    (ofColumn separator (⟨name, .categorical labels⟩ : Column α)).row i =
      Feature.indicators (Feature.levelsOf labels) labels[i] := by
  simp [ofColumn, Feature.ofColumn, Feature.indicators, Feature.levelsOf, hi, Function.comp_def]

theorem indicates_ofColumn [Scalar.CountsWhole α] (separator : Char) (name : String)
    (labels : List (Option String)) :
    (ofColumn separator (⟨name, .categorical labels⟩ : Column α)).Indicates separator name labels
      (Feature.levelsOf labels) labels.length := by
  have hnodup := Feature.levelsOf_nodup labels
  have hmem : ∀ i (hi : i < labels.length), ∀ label, labels[i] = some label →
      label ∈ Feature.levelsOf labels := by
    intro i hi label hlabel
    exact Feature.mem_levelsOf.2 (hlabel ▸ List.getElem_mem hi)
  constructor
  case sorted => exact (Axis.pairwise_ascending Axis.strict_lt _).imp of_decide_eq_true
  case occurs =>
    intro label
    exact Feature.mem_levelsOf
  case names => simp [ofColumn, Feature.ofColumn, Feature.levelsOf, Function.comp_def]
  case length =>
    intro i
    simp [ofColumn, Feature.ofColumn, Feature.levelsOf]
  case entry =>
    intro i hi k label hlabel
    rw [row_ofColumn separator name hi, Feature.getElem?_indicators, hlabel,
      List.getElem?_eq_getElem hi]
    simp [Feature.ofLabel]
  case binary =>
    intro i hi x hx
    rw [row_ofColumn separator name hi] at hx
    exact Feature.indicators_binary hx
  case at_most_one =>
    intro i hi k k' hk hk'
    rw [row_ofColumn separator name hi] at hk hk'
    exact Feature.indicators_at_most_one hnodup hk hk'
  case agree_iff =>
    intro i hi j hj
    rw [row_ofColumn separator name hi, row_ofColumn separator name hj,
      Feature.indicators_eq_iff hnodup (hmem i hi) (hmem j hj), List.getElem?_eq_getElem hi,
      List.getElem?_eq_getElem hj, Option.some_inj]
    rfl

theorem encodes_ofColumn [Scalar.AbsorbsNaN α] [Scalar.CountsWhole α] (separator : Char)
    (c : Column α) : (ofColumn separator c).Encodes separator c.length c := by
  obtain ⟨name, cells⟩ := c
  cases cells with
  | categorical labels => exact ⟨_, indicates_ofColumn separator name labels⟩
  | numeric values =>
    refine ⟨rfl, fun i hi => ⟨_, rfl, ?_⟩⟩
    change i < values.length at hi
    simp [Cells.isMissing, hi, Feature.isNaN_ofNumber]
  | datetime times =>
    refine ⟨rfl, fun i hi => ⟨_, rfl, ?_⟩⟩
    change i < times.length at hi
    simp [Cells.isMissing, hi, Feature.isNaN_ofTime]

end Block

namespace FeatureMatrix

structure Encodes (separator : Char) (t : Table α) (target : String) (blocks : List (Block α))
    (m : FeatureMatrix α) : Prop where
  columns : List.Forall₂ (fun c b => b.Encodes separator t.rowCount c)
    (t.columns.filter (·.name ≠ target)) blocks
  names : m.names = blocks.flatMap (·.names)
  rows : m.rows = (List.range t.rowCount).map fun i => blocks.flatMap (·.row i)
  rowCount : m.rows.length = t.rowCount
  width : ∀ row ∈ m.rows, row.length = m.names.length

/-- Every row has an entry for each of the names, in a block for each column but the target. -/
theorem encode_separates [Scalar.AbsorbsNaN α] [Scalar.CountsWhole α] {t : Table α}
    (ht : t.Rectangular) (separator : Char) (target : String) :
    ∃ blocks, Encodes separator t target blocks (encode separator t target) := by
  refine ⟨(t.columns.filter (·.name ≠ target)).map (Block.ofColumn separator), ?_⟩
  constructor
  case columns =>
    rw [List.forall₂_map_right_iff, List.forall₂_same]
    intro c hc
    rw [← ht c (List.mem_filter.1 hc).1]
    exact Block.encodes_ofColumn separator c
  case names =>
    rw [encode, List.flatMap_map, List.map_flatMap]
    rfl
  case rows =>
    rw [encode]
    apply List.map_congr_left
    intro i _
    rw [List.flatMap_map, List.map_flatMap]
    rfl
  case rowCount => simp [encode]
  case width =>
    intro row hrow
    obtain ⟨i, -, rfl⟩ := List.mem_map.1 hrow
    rw [encode, List.length_map, List.length_map]

/-- Sightings by province; the sites are all the same, and nothing is known of the weather. -/
def provinces : Table Float where
  columns := [
    ⟨"day", .datetime [some (Calendar.Date.midnight ⟨1969, 12, 31⟩), none,
      some (Calendar.Date.midnight ⟨2024, 2, 29⟩), none]⟩,
    ⟨"province", .categorical [some "RA", some "BO", none, some "FE"]⟩,
    ⟨"site", .categorical [some "hill", none, some "hill", some "hill"]⟩,
    ⟨"weather", .categorical [none, none, none, none]⟩,
    ⟨"adults", .numeric [some 1.0, none, some 3.0, some 4.0]⟩,
    ⟨"traps", .numeric [none, some 2.0, some (0.0 / 0.0), some 0.5]⟩]
  rowCount := 4

/-- Neither the sites nor the weather have an entry of their own. -/
theorem provinces_encoded : provinces.Rectangular ∧
    (∃ blocks, Encodes '!' provinces "adults" blocks (encode '!' provinces "adults")) ∧
    (encode '!' provinces "adults").names = ["day", "province!FE", "province!RA", "traps"] := by
  have hrectangular : provinces.Rectangular := by
    simp [Table.Rectangular, provinces, Column.length, Cells.length]
  exact ⟨hrectangular, encode_separates hrectangular '!' "adults", by decide +kernel⟩

end FeatureMatrix

end Infill
