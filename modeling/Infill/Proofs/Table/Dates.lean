import Infill.Proofs.Table.Shape
import Infill.Table.Dates

/-! Reading the date column of a table replaces that column, in its place and under its name, and
leaves the others alone. -/

namespace Infill

variable {α : Type} [Scalar α]

open Calendar (DateTime Granularity)

theorem Column.parseDates_ok {g : Granularity} {c d : Column α} (h : c.parseDates g = .ok d) :
    d.name = c.name ∧ d.length = c.length ∧ ∃ times, d.cells = .datetime times := by
  unfold Column.parseDates at h
  split at h
  · rename_i times hcells
    obtain rfl := Except.ok.inj h
    exact ⟨rfl, rfl, times, hcells⟩
  · rename_i labels hcells
    obtain ⟨times, htimes, h⟩ := bind_ok_iff.1 h
    obtain rfl := pure_ok_iff.1 h
    refine ⟨rfl, ?_, times, rfl⟩
    rw [Column.length, Column.length, hcells]
    exact (mapM_ok_iff.1 htimes).length_eq.symm
  · rename_i values hcells
    obtain ⟨times, htimes, h⟩ := bind_ok_iff.1 h
    obtain rfl := pure_ok_iff.1 h
    refine ⟨rfl, ?_, times, rfl⟩
    rw [Column.length, Column.length, hcells]
    exact (mapM_ok_iff.1 htimes).length_eq.symm.trans (List.length_map ..)

inductive Table.DatesRead : Option (String × Granularity) → Table α → Table α → Prop
  | undated (t : Table α) : DatesRead none t t
  | dated {before after : List (Column α)} {c d : Column α} {g : Granularity} (rows : Nat)
      (first : ∀ b ∈ before, b.name ≠ c.name) (read : c.parseDates g = .ok d) :
      DatesRead (some (c.name, g)) ⟨before ++ c :: after, rows⟩ ⟨before ++ d :: after, rows⟩

namespace Table.DatesRead

variable {date : Option (String × Granularity)} {t parsed : Table α}

theorem rectangular (h : t.DatesRead date parsed) (ht : t.Rectangular) : parsed.Rectangular := by
  cases h with
  | undated => exact ht
  | @dated before after c d g rows first read =>
    intro e he
    rcases List.mem_append.1 he with he | he
    · exact ht e (by simp [he])
    rcases List.mem_cons.1 he with rfl | he
    · exact (Column.parseDates_ok read).2.1.trans (ht c (by simp))
    · exact ht e (by simp [he])

theorem names_eq (h : t.DatesRead date parsed) : parsed.names = t.names := by
  cases h with
  | undated => rfl
  | dated rows first read => simp [names, (Column.parseDates_ok read).1]

theorem column?_other (h : t.DatesRead date parsed) {name : String}
    (hne : ∀ d g, date = some (d, g) → name ≠ d) : parsed.column? name = t.column? name := by
  cases h with
  | undated => rfl
  | @dated before after c d g rows first read =>
    have hc : c.name ≠ name := (hne c.name g rfl).symm
    simp [column?, List.find?_append, (Column.parseDates_ok read).1, hc]

theorem numeric_other (h : t.DatesRead date parsed) {name : String}
    (hne : ∀ d g, date = some (d, g) → name ≠ d) : parsed.numeric name = t.numeric name := by
  rw [numeric, column, h.column?_other hne, numeric, column]

theorem times {name : String} {g : Granularity} (h : t.DatesRead (some (name, g)) parsed) :
    ∃ c ts, parsed.column? name = some c ∧ c.cells = .datetime ts := by
  cases h with
  | @dated before after c d _ rows first read =>
    obtain ⟨hname, -, ts, hts⟩ := Column.parseDates_ok read
    refine ⟨d, ts, ?_, hts⟩
    have : column? ⟨before ++ d :: after, rows⟩ d.name = some d := column?_of_split (hname ▸ first)
    rwa [hname] at this

end Table.DatesRead

end Infill
