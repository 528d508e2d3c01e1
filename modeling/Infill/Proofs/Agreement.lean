import Infill.Proofs.Success

/-! Two computations agree when they fail for the same reason or succeed with results that
correspond. Steps that agree on corresponding states make runs that agree. -/

namespace Infill

variable {ε β γ β' γ' σ τ : Type}

inductive Agree (R : β → γ → Prop) : Except ε β → Except ε γ → Prop
  | error (e : ε) : Agree R (.error e) (.error e)
  | ok {b : β} {c : γ} (h : R b c) : Agree R (.ok b) (.ok c)

namespace Agree

theorem of_eq {R : β → β → Prop} (h : ∀ b, R b b) {x y : Except ε β} (heq : x = y) :
    Agree R x y := by
  subst heq
  cases x with
  | error e => exact .error e
  | ok b => exact .ok (h b)

theorem eq {x y : Except ε β} (h : Agree Eq x y) : x = y := by
  cases h with
  | error => rfl
  | ok h => rw [h]

theorem results {R : β → γ → Prop} {x : Except ε β} {y : Except ε γ} (h : Agree R x y) {b : β}
    {c : γ} (hx : x = .ok b) (hy : y = .ok c) : R b c := by
  subst hx hy
  cases h with
  | ok h => exact h

theorem bind {R : β → γ → Prop} {S : β' → γ' → Prop} {x : Except ε β} {y : Except ε γ}
    {f : β → Except ε β'} {g : γ → Except ε γ'} (h : Agree R x y)
    (hfg : ∀ b c, x = .ok b → y = .ok c → R b c → Agree S (f b) (g c)) :
    Agree S (x >>= f) (y >>= g) := by
  cases h with
  | error e => exact .error e
  | ok h => exact hfg _ _ rfl rfl h

theorem bind_same {S : β' → γ' → Prop} {x : Except ε β} {f : β → Except ε β'}
    {g : β → Except ε γ'} (hfg : ∀ b, x = .ok b → Agree S (f b) (g b)) :
    Agree S (x >>= f) (x >>= g) := by
  cases x with
  | error e => exact .error e
  | ok b => exact hfg b rfl

theorem map {R : β → γ → Prop} {S : β' → γ' → Prop} {x : Except ε β} {y : Except ε γ}
    {f : β → β'} {g : γ → γ'} (h : Agree R x y) (hfg : ∀ b c, R b c → S (f b) (g c)) :
    Agree S (x.map f) (y.map g) := by
  cases h with
  | error e => exact .error e
  | ok h => exact .ok (hfg _ _ h)

theorem mapM {S : β' → γ' → Prop} {f : β → Except ε β'} {g : β → Except ε γ'} {xs : List β}
    (h : ∀ x ∈ xs, Agree S (f x) (g x)) : Agree (List.Forall₂ S) (xs.mapM f) (xs.mapM g) := by
  induction xs with
  | nil => exact .ok .nil
  | cons x xs ih =>
    rw [List.mapM_cons, List.mapM_cons]
    refine (h x (by simp)).bind fun b c _ _ hbc => ?_
    refine (ih fun y hy => h y (by simp [hy])).bind fun bs cs _ _ hbcs => ?_
    exact .ok (.cons hbc hbcs)

theorem foldlM {Q : β → γ → Prop} {R : σ → τ → Prop} {f : σ → β → Except ε σ}
    {g : τ → γ → Except ε τ} {xs : List β} {ys : List γ} (hxy : List.Forall₂ Q xs ys)
    (step : ∀ s t x y, Q x y → R s t → Agree R (f s x) (g t y)) {s : σ} {t : τ} (h : R s t) :
    Agree R (xs.foldlM f s) (ys.foldlM g t) := by
  induction hxy generalizing s t with
  | nil => exact .ok h
  | @cons x y xs ys hq _ ih =>
    rw [List.foldlM_cons, List.foldlM_cons]
    exact (step s t x y hq h).bind fun _ _ _ _ hR => ih hR

end Agree

end Infill
