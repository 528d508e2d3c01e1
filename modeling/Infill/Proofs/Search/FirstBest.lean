import Mathlib.Data.List.Induction
import Infill.Proofs.Scalar.Order
import Infill.Scalar.Double
import Infill.Search.Trial

/-! The best trial of a search is the first of those with the highest score. Trials that fail and
scores that are not numbers stand among the others without having a say; where nothing else is there,
the search has come to nothing, however many of its trials count as successes. -/

namespace Infill.Search

open Scalar (isNaN OrdersNumbers)

variable {α β : Type} [Scalar α] {score : β → α}

def Trial.Scores (score : β → α) (trial : Trial β) (x : α) : Prop :=
  ∃ result, trial.result = .ok result ∧ score result = x ∧ isNaN x = false

/-- The best of some trials: the first of those with the highest score, or none if no score is a
number. -/
inductive FirstBest (score : β → α) : List (Trial β) → Option (Best β) → Prop
  | nowhere {trials : List (Trial β)} (no_score : ∀ trial ∈ trials, ∀ x, ¬ trial.Scores score x) :
      FirstBest score trials none
  | first {before after : List (Trial β)} {config : Config} {result : β}
      (number : isNaN (score result) = false)
      (before_lt : ∀ trial ∈ before, ∀ x, trial.Scores score x → x < score result)
      (after_le : ∀ trial ∈ after, ∀ x, trial.Scores score x → x ≤ score result) :
      FirstBest score (before ++ ⟨config, .ok result⟩ :: after) (some ⟨before.length, config, result⟩)

theorem FirstBest.isNaN {trials : List (Trial β)} {b : Best β}
    (h : FirstBest score trials (some b)) : isNaN (score b.result) = false := by
  cases h with
  | first hnumber => exact hnumber

/-- A trial takes over with a number above that of the best one so far. -/
theorem improves_iff [OrdersNumbers α] {trials : List (Trial β)} {best : Option (Best β)}
    (h : FirstBest score trials best) (x : α) :
    Score.improves x (best.map (score ·.result)) = true ↔
      isNaN x = false ∧ ∀ b, best = some b → score b.result < x := by
  unfold Score.improves
  cases hx : isNaN x with
  | true => simp
  | false =>
    cases best with
    | none => simp
    | some b => simp [h.isNaN]

section Step

variable [OrdersNumbers α] {trials : List (Trial β)} {best : Option (Best β)}

theorem FirstBest.lt_of_improves (h : FirstBest score trials best) {y : α}
    (hbest : ∀ b, best = some b → score b.result < y) {trial : Trial β} (htrial : trial ∈ trials)
    {x : α} (hx : trial.Scores score x) : x < y := by
  cases h with
  | nowhere hnone => exact absurd hx (hnone trial htrial x)
  | @first before after config result hnumber hbefore hafter =>
    have hy := hbest _ rfl
    rcases List.mem_append.1 htrial with hin | hin
    · exact OrdersNumbers.lt_trans (hbefore trial hin x hx) hy
    rcases List.mem_cons.1 hin with rfl | hin
    · obtain ⟨_, ⟨⟩, rfl, -⟩ := hx
      exact hy
    · obtain ⟨hle, hnot⟩ := OrdersNumbers.lt_iff.1 hy
      have hx' := hafter trial hin x hx
      exact OrdersNumbers.lt_iff.2 ⟨OrdersNumbers.le_trans hx' hle,
        fun hyx => hnot (OrdersNumbers.le_trans hyx hx')⟩

/-- A trial that does not take over has no say, or comes too late. -/
theorem FirstBest.stays (h : FirstBest score trials best) {trial : Trial β}
    (hx : ∀ x, trial.Scores score x → ∃ b, best = some b ∧ ¬ score b.result < x) :
    FirstBest score (trials ++ [trial]) best := by
  cases h with
  | nowhere hnone =>
    refine .nowhere fun t ht x hscore => ?_
    rcases List.mem_append.1 ht with ht | ht
    · exact hnone t ht x hscore
    · obtain rfl := List.mem_singleton.1 ht
      obtain ⟨b, hb, -⟩ := hx x hscore
      cases hb
  | @first before after config result hnumber hbefore hafter =>
    rw [List.append_assoc, List.cons_append]
    refine .first hnumber hbefore fun t ht x hscore => ?_
    rcases List.mem_append.1 ht with ht | ht
    · exact hafter t ht x hscore
    · obtain rfl := List.mem_singleton.1 ht
      obtain ⟨b, hb, hnot⟩ := hx x hscore
      obtain rfl := Option.some.inj hb
      obtain ⟨_, -, -, hx⟩ := hscore
      rcases OrdersNumbers.le_total hx hnumber with hle | hle
      · exact hle
      · by_contra hgt
        exact hnot (OrdersNumbers.lt_iff.2 ⟨hle, hgt⟩)

/-- One more trial is the best if it surpasses the best so far, and otherwise that one stays. -/
theorem FirstBest.step (h : FirstBest score trials best) (trial : Trial β) :
    FirstBest score (trials ++ [trial]) (better score best (trial, trials.length)) := by
  obtain ⟨config, result⟩ := trial
  cases result with
  | error e => exact h.stays fun x ⟨_, hfailed, _⟩ => nomatch hfailed
  | ok result =>
    unfold better
    dsimp only
    split_ifs with himproves
    · obtain ⟨hnumber, hbest⟩ := (improves_iff h _).1 himproves
      exact .first hnumber (fun t ht x hx => h.lt_of_improves hbest ht hx) (by simp)
    · refine h.stays fun x ⟨_, hresult, hx, hnumber⟩ => ?_
      obtain rfl := Except.ok.inj hresult
      subst hx
      by_contra hlower
      push Not at hlower
      exact himproves ((improves_iff h _).2 ⟨hnumber, hlower⟩)

end Step

theorem best?_concat (score : β → α) (trials : List (Trial β)) (trial : Trial β) :
    best? score (trials ++ [trial]) = better score (best? score trials) (trial, trials.length) := by
  rw [best?, List.zipIdx_append, List.foldl_append, Nat.zero_add]
  rfl

theorem getElem?_best {trials : List (Trial β)} {b : Best β} (h : best? score trials = some b) :
    trials[b.index]? = some ⟨b.config, .ok b.result⟩ := by
  induction trials using List.reverseRecOn with
  | nil => cases h
  | append_singleton trials trial ih =>
    have hstays : best? score trials = some b →
        (trials ++ [trial])[b.index]? = some ⟨b.config, .ok b.result⟩ := by
      intro hb
      have hlt := (List.getElem?_eq_some_iff.1 (ih hb)).1
      rw [List.getElem?_append_left hlt, ih hb]
    obtain ⟨config, result⟩ := trial
    rw [best?_concat, better] at h
    cases result with
    | error e => exact hstays h
    | ok result =>
      dsimp only at h
      split_ifs at h
      · obtain rfl := Option.some.inj h
        simp
      · exact hstays h

theorem best?_firstBest [OrdersNumbers α] (score : β → α) (trials : List (Trial β)) :
    FirstBest score trials (best? score trials) := by
  induction trials using List.reverseRecOn with
  | nil => exact .nowhere (by simp)
  | append_singleton trials trial ih =>
    rw [best?_concat]
    exact ih.step trial

section Place

def scoreAt (score : β → α) (trials : List (Trial β)) (place : Nat) : Option α :=
  trials[place]?.bind fun trial => trial.result.toOption.map score

def betterPlace (score : β → α) (trials : List (Trial β)) (best : Option Nat)
    (trial : Trial β × Nat) : Option Nat :=
  match trial.1.result with
  | .error _ => best
  | .ok result =>
    if Score.improves (score result) (best.bind (scoreAt score trials)) then some trial.2 else best

/-- The place of the best trial, without anything of the trial itself. -/
def bestPlace? (score : β → α) (trials : List (Trial β)) : Option Nat :=
  trials.zipIdx.foldl (betterPlace score trials) none

theorem bestPlace?_eq (score : β → α) (trials : List (Trial β)) :
    bestPlace? score trials = (best? score trials).map (·.index) := by
  have key : ∀ before after : List (Trial β),
      before.zipIdx.foldl (betterPlace score (before ++ after)) none =
        (best? score before).map (·.index) := by
    intro before
    induction before using List.reverseRecOn with
    | nil => exact fun _ => rfl
    | append_singleton before trial ih =>
      intro after
      have hkept : ((best? score before).map (·.index)).bind
          (scoreAt score (before ++ trial :: after)) = (best? score before).map (score ·.result) := by
        cases hbest : best? score before with
        | none => rfl
        | some b =>
          have hplace := getElem?_best hbest
          have hlt := (List.getElem?_eq_some_iff.1 hplace).1
          rw [Option.map_some, Option.bind_some, scoreAt, List.getElem?_append_left hlt, hplace]
          rfl
      rw [best?_concat, List.zipIdx_append, List.foldl_append, List.append_assoc,
        List.singleton_append, ih, Nat.zero_add, List.zipIdx_singleton, List.foldl_cons,
        List.foldl_nil, betterPlace, better]
      dsimp only
      cases trial.result with
      | error e => rfl
      | ok result =>
        dsimp only
        rw [hkept]
        split_ifs
        · rfl
        · rfl
  simpa [bestPlace?] using key trials []

end Place

/-- The trial stands at its place in the list, and no number that a trial scored is above its
score. -/
structure Unbeaten (score : β → α) (trials : List (Trial β)) (b : Best β) : Prop where
  placed : trials[b.index]? = some ⟨b.config, .ok b.result⟩
  le : ∀ trial ∈ trials, ∀ x, trial.Scores score x → x ≤ score b.result

section Unbeaten

variable [OrdersNumbers α] {trials : List (Trial β)} {b b' : Best β}

theorem exists_best_iff :
    (∃ b, best? score trials = some b) ↔ ∃ trial ∈ trials, ∃ x, trial.Scores score x := by
  have hbest := best?_firstBest score trials
  cases hfound : best? score trials with
  | none =>
    rw [hfound] at hbest
    cases hbest with
    | nowhere hnone => simpa using hnone
  | some b =>
    rw [hfound] at hbest
    refine iff_of_true ⟨b, rfl⟩ ⟨_, List.mem_of_getElem? (getElem?_best hfound), ?_⟩
    exact ⟨score b.result, b.result, rfl, rfl, hbest.isNaN⟩

theorem unbeaten_best (h : best? score trials = some b) : Unbeaten score trials b := by
  have hbest := best?_firstBest score trials
  rw [h] at hbest
  refine ⟨getElem?_best h, fun trial htrial x hx => ?_⟩
  cases hbest with
  | first hnumber hbefore hafter =>
    rcases List.mem_append.1 htrial with hin | hin
    · exact OrdersNumbers.le_of_lt (hbefore trial hin x hx)
    rcases List.mem_cons.1 hin with rfl | hin
    · obtain ⟨_, ⟨⟩, rfl, -⟩ := hx
      exact OrdersNumbers.le_refl hnumber
    · exact hafter trial hin x hx

/-- A trial before the best one is beaten by it, or has no number for a score. -/
theorem index_le_of_unbeaten (h : best? score trials = some b) (h' : Unbeaten score trials b') :
    b.index ≤ b'.index := by
  have hbest := best?_firstBest score trials
  rw [h] at hbest
  have hle := h'.le _ (List.mem_of_getElem? (getElem?_best h)) _ ⟨b.result, rfl, rfl, hbest.isNaN⟩
  have hplace := h'.placed
  cases hbest with
  | @first before after config result _ hbefore =>
    by_contra hearlier
    rw [List.getElem?_append_left (Nat.lt_of_not_le hearlier)] at hplace
    have hless := hbefore _ (List.mem_of_getElem? hplace) _
      ⟨b'.result, rfl, rfl, (OrdersNumbers.isNaN_of_le hle).2⟩
    exact (OrdersNumbers.lt_iff.1 hless).2 hle

end Unbeaten

theorem requireBest_ok_iff {name : String} {trials : List (Trial β)} {b : Best β} :
    requireBest name score trials = .ok b ↔ best? score trials = some b := by
  unfold requireBest
  cases best? score trials <;> simp

theorem requireBest_error_iff {name : String} {trials : List (Trial β)} {e : Error} :
    requireBest name score trials = .error e ↔
      best? score trials = none ∧ e = .noSuccessfulTrial name := by
  unfold requireBest
  cases best? score trials <;> simp [eq_comm]

/-- The best trial is the first one that is unbeaten, and there is one just where some score is a
number. It is found again at its place, so that the place is all that has to be kept. Otherwise the
search fails, and a success whose score is not a number does not change that. -/
theorem best_first_greatest [OrdersNumbers α] (name : String) (score : β → α)
    (trials : List (Trial β)) :
    ((∃ b, best? score trials = some b) ↔ ∃ trial ∈ trials, ∃ x, trial.Scores score x) ∧
    (∀ b, best? score trials = some b →
      Unbeaten score trials b ∧ ∀ b', Unbeaten score trials b' → b.index ≤ b'.index) ∧
    bestPlace? score trials = (best? score trials).map (·.index) ∧
    (∀ b, requireBest name score trials = .ok b ↔ best? score trials = some b) ∧
    (∀ e, requireBest name score trials = .error e ↔
      best? score trials = none ∧ e = .noSuccessfulTrial name) ∧
    (best? score trials = none → ∀ config result, isNaN (score result) = true →
      successes (trials ++ [⟨config, .ok result⟩]) = successes trials + 1 ∧
      requireBest name score (trials ++ [⟨config, .ok result⟩]) =
        .error (.noSuccessfulTrial name)) := by
  refine ⟨exists_best_iff, fun b hb => ⟨unbeaten_best hb, fun b' => index_le_of_unbeaten hb⟩,
    bestPlace?_eq score trials, fun _ => requireBest_ok_iff, fun _ => requireBest_error_iff,
    fun hnone config result hnan => ⟨?_, ?_⟩⟩
  · simp [successes, Except.isOk, Except.toBool]
  · rw [requireBest, best?_concat, hnone]
    simp [better, Score.improves, hnan]

def failedTrial : Trial Float := ⟨[("p", 1)], .error .emptyData⟩

def unscoredTrial : Trial Float := ⟨[("p", 2)], .ok (0.0 / 0.0)⟩

/-- A failure, numbers, and scores that are none, with the highest score twice. -/
def mixedTrials : List (Trial Float) := [
  failedTrial,
  unscoredTrial,
  ⟨[("p", 3)], .ok 2.0⟩,
  ⟨[("p", 4)], .ok (1.0 / 0.0)⟩,
  ⟨[("p", 5)], .ok (1.0 / 0.0)⟩,
  unscoredTrial]

/-- The first infinite score wins; without the numbers there is a success but no best trial. -/
theorem mixedTrials_best :
    (∃ b, best? id mixedTrials = some b ∧ b.index = 3 ∧ b.config = [("p", 4)] ∧
      Unbeaten id mixedTrials b ∧ bestPlace? id mixedTrials = some 3 ∧
      requireBest "decisionTree" id mixedTrials = .ok b) ∧
    successes [failedTrial, unscoredTrial] = 1 ∧
    requireBest "decisionTree" id [failedTrial, unscoredTrial] =
      .error (.noSuccessfulTrial "decisionTree") := by
  have hplace : (best? id mixedTrials).map (·.index) = some 3 := by decide +kernel
  obtain ⟨b, hb, hindex⟩ := Option.map_eq_some_iff.1 hplace
  obtain ⟨-, hfirst, hlooked, hrequired, -⟩ :=
    best_first_greatest "decisionTree" id mixedTrials
  obtain ⟨hunbeaten, -⟩ := hfirst b hb
  have hhere := hunbeaten.placed
  rw [hindex] at hhere
  have hconfig : [("p", 4)] = b.config := congrArg Trial.config (Option.some.inj hhere)
  obtain ⟨-, -, -, -, -, hunscored⟩ := best_first_greatest "decisionTree" id [failedTrial]
  exact ⟨⟨b, hb, hindex, hconfig.symm, hunbeaten, hlooked.trans hplace, (hrequired b).2 hb⟩,
    hunscored rfl [("p", 2)] (0.0 / 0.0) (by decide +kernel)⟩

end Infill.Search
