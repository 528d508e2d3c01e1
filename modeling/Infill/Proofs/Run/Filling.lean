import Infill.Proofs.Impute.Written
import Infill.Proofs.Run.Parts
import Infill.Proofs.Table.SeriesName

/-! What a family makes of the table that it is given. A series is filled in a frame of its own, and
its cells are then written to the wide table by name and row; the frame shows the series as the wide
table does, so that they are missing there too. -/

namespace Infill

variable {α : Type} [Scalar α]

namespace Run

open Table

theorem fillFrame_writes {r : Request α} {model : Family} {frame : Table α} {series : String}
    {w : Windows} {i : Imputation α} {exog : Nat}
    (h : fillFrame r model frame series w = .ok (i, exog)) : i.Writes (· = series) frame := by
  have byTree : ∀ kind, (do
      return (← TreeFill.train frame series kind w.test w.accuracy r.settings,
        frame.columns.length - 2) : Except Error (Imputation α × Nat)) = .ok (i, exog) →
      i.Writes (· = series) frame := by
    intro kind h
    simp only [bind_ok_iff, pure_ok_iff] at h
    obtain ⟨j, hj, heq⟩ := h
    obtain ⟨rfl, -⟩ := Prod.mk.inj heq
    exact TreeFill.train_writes hj
  unfold fillFrame at h
  split at h
  · exact SeriesFill.Single.train_writes h
  · exact byTree _ h
  · exact byTree _ h

/-- One series after the other goes on filling the wide table. -/
theorem fillSeries_fills {r : Request α} {model : Family} {wide : Table α} {date : String}
    {w : Windows} {writable : String → Prop} {progress progress' : Progress α} {series : String}
    (hs : writable series) (hp : wide.Fills writable progress.2)
    (h : fillSeries r model wide date w progress series = .ok progress') :
    wide.Fills writable progress'.2 := by
  obtain ⟨missing, -, h⟩ := fillSeries_ok_iff.1 h
  split at h
  · exact h ▸ hp
  obtain ⟨frame, hframe, i, exog, hi, table, htable, rfl⟩ := h
  refine hp.writeCells (fun c hc => ?_) htable
  cases hfilled : i.filled with
  | none => simp [hfilled] at hc
  | some cells =>
    rw [hfilled] at hc
    obtain ⟨rfl, d, hd, hmiss⟩ := (fillFrame_writes hi).filled cells hfilled c hc
    rw [SeriesName.sliceFrame_column? hframe] at hd
    exact ⟨hs, d, hd, hmiss⟩

theorem perSeries_fills {r : Request α} {model : Family} {wide : Table α} {date : String}
    {w : Windows} {progress : Progress α} (h : perSeries r model wide date w = .ok progress) :
    wide.Fills (· ∈ SeriesName.ofMeasure r.settings.separator wide r.target) progress.2 :=
  foldlM_keeps (fun p : Progress α => wide.Fills _ p.2)
    (fun _ _ hs hp _ h => fillSeries_fills hs hp h) (.refl _ wide) h

theorem jointly_fills {r : Request α} {wide : Table α} {w : Windows} {progress : Progress α}
    (h : jointly r wide w = .ok progress) :
    wide.Fills (· ∈ SeriesName.ofMeasure r.settings.separator wide r.target) progress.2 := by
  simp only [jointly, bind_ok_iff, pure_ok_iff] at h
  obtain ⟨⟨i, dims⟩, hi, -, -, rfl⟩ := h
  exact (SeriesFill.Joint.train_writes hi).table

theorem fillWide_fills {r : Request α} {wide : Table α} {date : String} {model : Family}
    {progress : Progress α} (h : fillWide r wide date model = .ok progress) :
    wide.Fills (· ∈ SeriesName.ofMeasure r.settings.separator wide r.target) progress.2 := by
  unfold fillWide at h
  dsimp only at h
  split at h
  · exact jointly_fills h
  · exact perSeries_fills h

def MeltOfFilled (r : Request α) (date : String) (slice : Option String) (wide long : Table α) :
    Prop :=
  ∃ filled, wide.Fills (· ∈ SeriesName.ofMeasure r.settings.separator wide r.target) filled ∧
    Pivot.gather r.settings.separator filled date slice r.target = .ok long

theorem timeAware_fills {r : Request α} {wide : Table α} {date : String} {slice : Option String}
    {distinct : Nat} {model : Family} {c : Contribution α}
    (h : timeAware r wide date slice distinct model = .ok (some c)) :
    c.imputed.model = model ∧ MeltOfFilled r date slice wide c.imputed.table := by
  by_cases hidle : model = .multivariate ∧ distinct ≤ 1
  · obtain ⟨rfl, hone⟩ := hidle
    rw [timeAware_idle _ _ _ _ hone] at h
    simp at h
  obtain ⟨progress, hp, long, hlong, heq⟩ := (timeAware_ok_iff hidle).1 h
  obtain rfl := Option.some.inj heq
  exact ⟨rfl, progress.2, fillWide_fills hp, hlong⟩

theorem timeAgnostic_fills {r : Request α} {t : Table α} {missing : Nat} {model : Family}
    {c : Contribution α} (h : timeAgnostic r t missing model = .ok c) :
    c.imputed.model = model ∧ t.Fills (· = r.target) c.imputed.table := by
  simp only [timeAgnostic, bind_ok_iff, pure_ok_iff] at h
  obtain ⟨i, hi, rfl⟩ := h
  exact ⟨rfl, (TreeFill.train_writes hi).table⟩

end Run

end Infill
