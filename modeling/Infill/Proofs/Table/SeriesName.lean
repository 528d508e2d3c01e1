import Mathlib.Data.List.TakeWhile
import Infill.Proofs.Table.Shape
import Infill.Table.SeriesName

/-! Names of wide columns. The measure and the slice value of a composed name are found again when
the measure holds no separator, and the frame of a series shows that series as the wide table
does. -/

namespace Infill.SeriesName

open Table

variable {α : Type}

theorem decompose?_compose {separator : Char} {measure : String}
    (h : separator ∉ measure.toList) (slice : String) :
    decompose? separator (compose separator measure slice) = some (measure, slice) := by
  have hne : ∀ c ∈ measure.toList, decide (c ≠ separator) = true := by
    intro c hc
    exact decide_eq_true fun heq => h (heq ▸ hc)
  rw [decompose?, compose, String.toList_ofList, List.dropWhile_append_of_pos hne,
    List.takeWhile_append_of_pos hne]
  simp

/-- A composed name tells the measure and the slice value, whatever is in the slice value. -/
theorem compose_inj {separator : Char} {measure measure' slice slice' : String}
    (h : separator ∉ measure.toList) (h' : separator ∉ measure'.toList)
    (heq : compose separator measure slice = compose separator measure' slice') :
    measure = measure' ∧ slice = slice' := by
  have hparts := decompose?_compose h slice
  rw [heq, decompose?_compose h'] at hparts
  obtain ⟨rfl, rfl⟩ := Prod.mk.inj (Option.some.inj hparts)
  exact ⟨rfl, rfl⟩

theorem compose_injective {separator : Char} {measure : String} (h : separator ∉ measure.toList) :
    Function.Injective (compose separator measure) := by
  intro s s' heq
  exact (compose_inj h h heq).2

theorem compose_ne {separator : Char} {name measure slice : String}
    (h : separator ∉ name.toList) : compose separator measure slice ≠ name := by
  rintro rfl
  exact h (by simp [compose])

theorem decompose?_none {separator : Char} {name : String} (h : separator ∉ name.toList) :
    decompose? separator name = none := by
  have : name.toList.dropWhile (· ≠ separator) = [] := by
    rw [List.dropWhile_eq_nil_iff]
    intro c hc
    exact decide_eq_true fun heq => h (heq ▸ hc)
  unfold decompose?
  rw [this]

theorem compose_of_decompose? {separator : Char} {name measure slice : String}
    (h : decompose? separator name = some (measure, slice)) :
    compose separator measure slice = name := by
  unfold decompose? at h
  generalize hrest : name.toList.dropWhile (· ≠ separator) = rest at h
  cases rest with
  | nil => cases h
  | cons c rest =>
    obtain ⟨rfl, rfl⟩ := Prod.mk.inj (Option.some.inj h)
    have hc : c = separator := by
      have := List.head?_dropWhile_not (· ≠ separator) name.toList
      rw [hrest] at this
      simpa using this
    subst hc
    rw [compose, String.toList_ofList, String.toList_ofList, ← hrest, List.takeWhile_append_dropWhile,
      String.ofList_toList]

/-- A composed name belongs to a measure when it can be composed of it. -/
theorem measure_compose_iff {separator : Char} {target : String} (h : separator ∉ target.toList)
    (m s : String) : measure separator (compose separator m s) = target ↔
      ∃ slice, compose separator m s = compose separator target slice := by
  constructor
  · intro hm
    cases hparts : decompose? separator (compose separator m s) with
    | none =>
      rw [measure, hparts, Option.map_none, Option.getD_none] at hm
      exact absurd hm (compose_ne h)
    | some parts =>
      rw [measure, hparts] at hm
      obtain rfl : parts.1 = target := hm
      exact ⟨parts.2, (compose_of_decompose? hparts).symm⟩
  · rintro ⟨slice, heq⟩
    rw [heq, measure, decompose?_compose h]
    rfl

theorem mem_ofMeasure {separator : Char} {t : Table α} {measure name : String} :
    name ∈ ofMeasure separator t measure ↔
      name ∈ t.names ∧ ∃ slice, decompose? separator name = some (measure, slice) := by
  simp [ofMeasure]

theorem ofMeasure_congr {t t' : Table α} (h : t'.names = t.names) (separator : Char)
    (measure : String) : ofMeasure separator t' measure = ofMeasure separator t measure := by
  rw [ofMeasure, h, ofMeasure]

theorem slice?_of_mem_ofMeasure {separator : Char} {t : Table α} {measure name : String}
    (h : name ∈ ofMeasure separator t measure) : ∃ slice, slice? separator name = some slice := by
  obtain ⟨-, slice, hs⟩ := mem_ofMeasure.1 h
  exact ⟨slice, by simp [slice?, hs]⟩

theorem sliceFrame_ok_iff {separator : Char} {wide frame : Table α} {date series : String} :
    sliceFrame separator wide date series = .ok frame ↔ series ∈ wide.names ∧
      ∃ slice, slice? separator series = some slice ∧
        wide.select (date :: wide.names.filter fun n => slice? separator n == some slice) =
          .ok frame := by
  unfold sliceFrame
  rw [discard_bind, bind_ok_iff, ← column?_isSome_iff]
  simp only [column_ok_iff, ← exists_and_right, Option.isSome_iff_exists]
  refine exists_congr fun c => and_congr_right fun _ => ?_
  cases slice? separator series <;> simp

theorem sliceFrame_column? {separator : Char} {wide frame : Table α} {date series : String}
    (h : sliceFrame separator wide date series = .ok frame) :
    frame.column? series = wide.column? series := by
  obtain ⟨hmem, slice, hs, h⟩ := sliceFrame_ok_iff.1 h
  exact select_column? h (List.mem_cons_of_mem _ (List.mem_filter.2 ⟨hmem, by simp [hs]⟩))

end Infill.SeriesName
