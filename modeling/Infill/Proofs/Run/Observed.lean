import Infill.Proofs.Run.Containment

/-! Imputation never changes an observed value. Every table of a report fills the table that its
family was given: the long table with its dates read, or the wide table of the report, of which the
long form is handed back. -/

namespace Infill

variable {α : Type} [Scalar α]

namespace Run

open Table

/-- What one table of a report shows: the table with its dates read and some target cells filled, or
the long form of the wide table with some cells of the target's series filled. -/
def Faithful (r : Request α) (parsed : Table α) (wide : Option (Table α)) (e : ImputedTable α) :
    Prop :=
  if e.model.isTimeAware then
    ∃ date g w, (rolesOf r).date = some (date, g) ∧ wide = some w ∧
      MeltOfFilled r date (rolesOf r).slice w e.table
  else parsed.Fills (· = r.target) e.table

/-- Nothing but missing target cells is ever changed. -/
theorem predict_fills_missing {t : Table α} {roster : List String} {r : Request α}
    {report : Report α} (h : predict t roster r = .ok report) :
    ∃ parsed, t.DatesRead (rolesOf r).date parsed ∧
      ∀ e ∈ report.imputed, Faithful r parsed report.wide e := by
  obtain ⟨-, parsed, hparsed, time, htime, rows, hrows, rfl⟩ := predict_ok_iff.1 h
  refine ⟨parsed, withDates_reads hparsed, fun e he => ?_⟩
  rcases List.mem_append.1 he with he | he
  · cases hdate : (rolesOf r).date with
    | none =>
      obtain rfl := Except.ok.inj ((timePart_undated hdate).symm.trans htime)
      simp [assemble] at he
    | some key =>
      obtain ⟨wide, -, contributions, hc, rfl⟩ := (timePart_dated_ok_iff hdate).1 htime
      simp only [dated, assemble, List.mem_map, List.mem_filterMap, id] at he
      obtain ⟨c, ⟨_, hmem, rfl⟩, rfl⟩ := he
      obtain ⟨model, hmodel, hrun⟩ := forall₂_mem_right (mapM_ok_iff.1 hc) hmem
      obtain ⟨rfl, hmelt⟩ := timeAware_fills hrun
      unfold Faithful
      rw [if_pos (List.mem_filter.1 hmodel).2]
      exact ⟨key.1, key.2, wide, hdate, rfl, hmelt⟩
  · obtain ⟨missing, -, contributions, hc, rfl⟩ := rowPart_ok_iff.1 hrows
    simp only [assemble, List.mem_map] at he
    obtain ⟨c, hmem, rfl⟩ := he
    obtain ⟨model, hmodel, hrun⟩ := forall₂_mem_right (mapM_ok_iff.1 hc) hmem
    obtain ⟨rfl, hfill⟩ := timeAgnostic_fills hrun
    unfold Faithful
    rw [if_neg (by simpa using (List.mem_filter.1 hmodel).2)]
    exact hfill

/-- Both kinds of families have gaps to fill, one of them a year that is held back. -/
theorem captures_observed_kept :
    ∃ report, predict captures ["univariateTS", "unheard", "decisionTree"] capturesRequest =
        .ok report ∧
      ∃ parsed, captures.DatesRead (rolesOf capturesRequest).date parsed ∧
        ∀ e ∈ report.imputed, Faithful capturesRequest parsed report.wide e := by
  obtain ⟨report, h⟩ := captures_run ["univariateTS", "unheard", "decisionTree"]
  exact ⟨report, h, predict_fills_missing h⟩

end Run

end Infill
