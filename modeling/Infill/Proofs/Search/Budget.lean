import Mathlib.Data.List.Infix
import Infill.Proofs.Search.FirstBest

/-! A search that may try more never ends up with less. The draws of a smaller budget open those of a
larger one, whether each parameter is drawn on its own or the whole grid is shuffled; so the larger
search has the same best trial at that point, and leaves it only for a higher score. -/

namespace Infill.Search

open Chance (Generator)

theorem Grid.drawMany_prefix (grid : Grid) {n m : Nat} (h : n ≤ m) (g : Generator) :
    grid.drawMany n g <+: grid.drawMany m g := by
  induction n generalizing m g with
  | zero => exact List.nil_prefix
  | succ n ih =>
    obtain ⟨m, rfl⟩ : ∃ k, m = k + 1 := ⟨m - 1, by omega⟩
    rw [drawMany, drawMany]
    exact (List.prefix_append_right_inj _).2 (ih (by omega) _)

theorem Plan.draws_prefix (grid : Grid) {n m : Nat} (h : n ≤ m) (seed : UInt64)
    (sampling : Sampling) :
    (Plan.mk n seed sampling).draws grid <+: (Plan.mk m seed sampling).draws grid := by
  have hbudget : min grid.size n ≤ min grid.size m := by omega
  cases sampling with
  | withReplacement => exact grid.drawMany_prefix hbudget _
  | withoutReplacement => exact List.take_prefix_take_left hbudget

variable {α β : Type} [Scalar α]

/-- The best trial so far, after `b` was the best: the same one, or one with a higher score. -/
def Surpasses (score : β → α) (b : Best β) (best : Option (Best β)) : Prop :=
  ∃ b', best = some b' ∧ Scalar.isNaN (score b'.result) = false ∧
    (b' = b ∨ score b.result < score b'.result)

/-- A trial takes over with a score that is a number. -/
theorem better_eq_some {score : β → α} {best : Option (Best β)} {trial : Trial β × Nat}
    {b : Best β} (h : better score best trial = some b) :
    best = some b ∨ (Scalar.isNaN (score b.result) = false ∧
      ∀ b₀, best = some b₀ → Scalar.isNaN (score b₀.result) = false →
        score b₀.result < score b.result) := by
  unfold better at h
  split at h
  · exact Or.inl h
  split_ifs at h with himproves
  · obtain rfl := Option.some.inj h
    refine Or.inr ⟨?_, ?_⟩
    · by_contra hnan
      simp [Score.improves, hnan] at himproves
    · rintro b₀ rfl hnumber
      unfold Score.improves at himproves
      split_ifs at himproves
      simpa [hnumber] using himproves
  · exact Or.inl h

theorem better_isSome {score : β → α} {b : Best β} {trial : Trial β × Nat} :
    ∃ b', better score (some b) trial = some b' := by
  unfold better
  split
  · exact ⟨b, rfl⟩
  · split_ifs
    · exact ⟨_, rfl⟩
    · exact ⟨b, rfl⟩

variable [Scalar.OrdersNumbers α]

theorem Surpasses.better {score : β → α} {b : Best β} {best : Option (Best β)}
    (h : Surpasses score b best) (trial : Trial β × Nat) :
    Surpasses score b (better score best trial) := by
  obtain ⟨b', rfl, hnumber, hb'⟩ := h
  obtain ⟨c, hc⟩ : ∃ c, Search.better score (some b') trial = some c := better_isSome
  refine ⟨c, hc, ?_⟩
  rcases better_eq_some hc with hsame | ⟨hc', hhigher⟩
  · obtain rfl := Option.some.inj hsame
    exact ⟨hnumber, hb'⟩
  · have hlt := hhigher b' rfl hnumber
    refine ⟨hc', Or.inr ?_⟩
    rcases hb' with rfl | hb'
    · exact hlt
    · exact Scalar.OrdersNumbers.lt_trans hb' hlt

theorem Surpasses.foldl {score : β → α} {b : Best β} (trials : List (Trial β × Nat))
    {best : Option (Best β)} (h : Surpasses score b best) :
    Surpasses score b (trials.foldl (Search.better score) best) := by
  induction trials generalizing best with
  | nil => exact h
  | cons trial trials ih => exact ih (h.better trial)

/-- Further trials keep the best one, or have a better one. -/
theorem best?_append {score : β → α} {trials : List (Trial β)} {b : Best β}
    (h : best? score trials = some b) (more : List (Trial β)) :
    Surpasses score b (best? score (trials ++ more)) := by
  unfold best?
  rw [List.zipIdx_append, List.foldl_append]
  refine Surpasses.foldl _ ?_
  have hfirst := best?_firstBest score trials
  rw [h] at hfirst
  exact ⟨b, h, hfirst.isNaN, Or.inl rfl⟩

/-- The first draws of a larger budget are those of a smaller one, and its best trial is at least as
good: another one only with a higher score. -/
theorem larger_budget_no_worse (grid : Grid) (seed : UInt64) (sampling : Sampling)
    (evaluate : Config → Except Error β) (score : β → α) {n m : Nat} (h : n ≤ m) :
    (Plan.mk n seed sampling).draws grid <+: (Plan.mk m seed sampling).draws grid ∧
    ∀ b, best? score (run ⟨n, seed, sampling⟩ grid evaluate) = some b →
      ∃ b', best? score (run ⟨m, seed, sampling⟩ grid evaluate) = some b' ∧
        score b.result ≤ score b'.result ∧
        (b' = b ∨ score b.result < score b'.result) := by
  have hdraws := Plan.draws_prefix grid h seed sampling
  refine ⟨hdraws, fun b hb => ?_⟩
  obtain ⟨more, hmore⟩ := hdraws
  have htrials : run ⟨m, seed, sampling⟩ grid evaluate =
      run ⟨n, seed, sampling⟩ grid evaluate ++
        more.map fun config => ⟨config, evaluate config⟩ := by
    rw [run, ← hmore, List.map_append, run]
  obtain ⟨b', hb', hnumber, hsurpasses⟩ := best?_append hb (more.map fun config =>
    Trial.mk config (evaluate config))
  refine ⟨b', htrials ▸ hb', ?_, hsurpasses⟩
  rcases hsurpasses with rfl | hlt
  · exact Scalar.OrdersNumbers.le_refl hnumber
  · exact Scalar.OrdersNumbers.le_of_lt hlt

def threeValues : Grid := [("p", [3, 5, 8])]

def valueOf (config : Config) : Except Error Nat :=
  if config.get "p" = 8 then .error .emptyData else .ok (config.get "p")

theorem best_threeValues :
    best? Double.ofNat (run ⟨1, 42, .withReplacement⟩ threeValues valueOf) =
      some ⟨0, [("p", 3)], 3⟩ := by
  have hdraws : (Plan.mk 1 42 .withReplacement).draws threeValues = [[("p", 3)]] := by
    decide +kernel
  have hvalue : valueOf [("p", 3)] = .ok 3 := rfl
  have himproves : Score.improves (Double.ofNat 3) none = true := by decide +kernel
  rw [run, hdraws]
  simp only [List.map_cons, List.map_nil, best?, List.zipIdx_cons, List.zipIdx_nil,
    List.foldl_cons, List.foldl_nil, better, hvalue, Option.map_none, himproves, if_true]

theorem threeValues_no_worse :
    ∃ b', best? Double.ofNat (run ⟨2, 42, .withReplacement⟩ threeValues valueOf) = some b' ∧
      Double.ofNat 3 ≤ Double.ofNat b'.result ∧
      (b' = ⟨0, [("p", 3)], 3⟩ ∨ Double.ofNat 3 < Double.ofNat b'.result) := by
  obtain ⟨-, hlarger⟩ := larger_budget_no_worse threeValues 42 .withReplacement valueOf
    Double.ofNat (Nat.le_add_right 1 1)
  obtain ⟨b', hbest, hle, hsurpasses⟩ := hlarger _ best_threeValues
  refine ⟨b', hbest, ?_, ?_⟩
  · exact hle
  · exact hsurpasses

end Infill.Search
