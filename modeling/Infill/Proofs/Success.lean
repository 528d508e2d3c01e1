import Mathlib.Data.List.Forall2
import Mathlib.Tactic.SplitIfs
import Infill.Error

/-! A computation of several steps succeeds when each of its steps does. A pass over a list that
collects results succeeds member by member; a pass that threads a state keeps every invariant that
its steps keep. -/

namespace Infill

variable {ε β γ σ τ : Type}

theorem bind_ok_iff {x : Except ε β} {f : β → Except ε γ} {c : γ} :
    (x >>= f) = .ok c ↔ ∃ b, x = .ok b ∧ f b = .ok c := by
  cases x with
  | error e => simp [bind, Except.bind]
  | ok b => simp [bind, Except.bind]

theorem bind_error_iff {x : Except ε β} {f : β → Except ε γ} {e : ε} :
    (x >>= f) = .error e ↔ x = .error e ∨ ∃ b, x = .ok b ∧ f b = .error e := by
  cases x with
  | error e => simp [bind, Except.bind]
  | ok b => simp [bind, Except.bind]

theorem map_ok_iff {x : Except ε β} {f : β → γ} {c : γ} :
    x.map f = .ok c ↔ ∃ b, x = .ok b ∧ f b = c := by
  cases x with
  | error e => simp [Except.map]
  | ok b => simp [Except.map]

theorem pure_ok_iff {b c : β} : (pure b : Except ε β) = .ok c ↔ b = c := by
  simp [pure, Except.pure]

theorem isOk_iff {x : Except ε β} : x.isOk = true ↔ ∃ b, x = .ok b := by
  cases x <;> simp [Except.isOk, Except.toBool]

/-- A step that hands out a state and may name an error. -/
theorem snd_eq_none_iff {x : β × Option ε} : x.2 = none ↔ ∃ b, x = (b, none) :=
  ⟨fun h => ⟨x.1, Prod.ext rfl h⟩, by rintro ⟨b, rfl⟩; rfl⟩

theorem throw_ne_ok {e : ε} {b : β} : (throw e : Except ε β) ≠ .ok b := by
  simp [throw, throwThe, MonadExceptOf.throw]

theorem check_ok_iff {c : Prop} [Decidable c] {e : ε} {rest : β → Except ε γ}
    {next : Except ε γ} {x : γ} :
    (if c then (throw e : Except ε β) >>= rest else next) = .ok x ↔ ¬ c ∧ next = .ok x := by
  split_ifs with h
  · simp only [bind_ok_iff, throw_ne_ok, false_and, exists_false, h, not_true]
  · simp only [h, not_false_iff, true_and]

theorem checked_ok_iff {c : Prop} [Decidable c] {e : ε} {b d : β} :
    (if c then pure b else (throw e : Except ε β)) = .ok d ↔ c ∧ b = d := by
  split_ifs with h
  · simp only [pure_ok_iff, h, true_and]
  · simp only [h, false_and]

theorem discard_bind {x : Except ε β} {f : PUnit → Except ε γ} :
    (discard x >>= f) = x >>= fun _ => f ⟨⟩ := by
  cases x <;> rfl

/-- The results stand in the order of the members. -/
theorem mapM_ok_iff {f : β → Except ε γ} {xs : List β} {ys : List γ} :
    xs.mapM f = .ok ys ↔ List.Forall₂ (fun x y => f x = .ok y) xs ys := by
  induction xs generalizing ys with
  | nil => rw [List.mapM_nil, pure_ok_iff, List.forall₂_nil_left_iff, eq_comm]
  | cons x xs ih =>
    rw [List.mapM_cons, bind_ok_iff, List.forall₂_cons_left_iff]
    simp only [bind_ok_iff, pure_ok_iff, ih]
    constructor
    · rintro ⟨y, hy, ys', hys, rfl⟩
      exact ⟨y, ys', hy, hys, rfl⟩
    · rintro ⟨y, ys', hy, hys, rfl⟩
      exact ⟨y, hy, ys', hys, rfl⟩

theorem mapM_total {f : β → Except ε γ} {xs : List β} (h : ∀ x ∈ xs, ∃ y, f x = .ok y) :
    ∃ ys, xs.mapM f = .ok ys := by
  induction xs with
  | nil => exact ⟨[], rfl⟩
  | cons x xs ih =>
    obtain ⟨y, hy⟩ := h x (by simp)
    obtain ⟨ys, hys⟩ := ih fun z hz => h z (by simp [hz])
    exact ⟨y :: ys, mapM_ok_iff.2 (.cons hy (mapM_ok_iff.1 hys))⟩

theorem mapM_congr {f g : β → Except ε γ} {xs : List β} (h : ∀ x ∈ xs, f x = g x) :
    xs.mapM f = xs.mapM g := by
  induction xs with
  | nil => rfl
  | cons x xs ih =>
    rw [List.mapM_cons, List.mapM_cons, h x (by simp), ih fun y hy => h y (by simp [hy])]

theorem mapM_map_ok_iff {f : β → Except ε γ} {g : γ → σ} {xs : List β} {zs : List σ} :
    xs.mapM (fun x => (f x).map g) = .ok zs ↔ ∃ ys, xs.mapM f = .ok ys ∧ ys.map g = zs := by
  simp only [mapM_ok_iff, map_ok_iff]
  constructor
  · intro h
    induction h with
    | nil => exact ⟨[], .nil, rfl⟩
    | cons h _ ih =>
      obtain ⟨y, hy, rfl⟩ := h
      obtain ⟨ys, hys, rfl⟩ := ih
      exact ⟨y :: ys, .cons hy hys, rfl⟩
  · rintro ⟨ys, h, rfl⟩
    rw [List.forall₂_map_right_iff]
    exact h.imp fun _ y hy => ⟨y, hy, rfl⟩

/-- Two passes over one list have corresponding results. -/
theorem mapM_both {f : β → Except ε γ} {g : β → Except ε σ} {R : γ → σ → Prop} {xs : List β}
    (h : ∀ x y z, f x = .ok y → g x = .ok z → R y z) {ys : List γ} {zs : List σ}
    (hf : xs.mapM f = .ok ys) (hg : xs.mapM g = .ok zs) : List.Forall₂ R ys zs := by
  rw [mapM_ok_iff] at hf hg
  induction hf generalizing zs with
  | nil => exact List.forall₂_nil_left_iff.1 hg ▸ .nil
  | cons hy _ ih =>
    obtain ⟨z, zs, hz, hrest, rfl⟩ := List.forall₂_cons_left_iff.1 hg
    exact .cons (h _ _ _ hy hz) (ih hrest)

theorem mapM_append_ok_iff {f : β → Except ε γ} {xs xs' : List β} {zs : List γ} :
    (xs ++ xs').mapM f = .ok zs ↔
      ∃ ys, xs.mapM f = .ok ys ∧ ∃ ys', xs'.mapM f = .ok ys' ∧ ys ++ ys' = zs := by
  simp only [List.mapM_append, bind_ok_iff, pure_ok_iff]

theorem forall₂_mem_left {R : β → γ → Prop} {xs : List β} {ys : List γ} (h : List.Forall₂ R xs ys)
    {x : β} (hx : x ∈ xs) : ∃ y ∈ ys, R x y := by
  induction h with
  | nil => simp at hx
  | @cons a b _ _ hab _ ih =>
    rcases List.mem_cons.1 hx with rfl | hx
    · exact ⟨b, by simp, hab⟩
    · obtain ⟨y, hy, hxy⟩ := ih hx
      exact ⟨y, by simp [hy], hxy⟩

theorem forall₂_mem_right {R : β → γ → Prop} {xs : List β} {ys : List γ}
    (h : List.Forall₂ R xs ys) {y : γ} (hy : y ∈ ys) : ∃ x ∈ xs, R x y :=
  forall₂_mem_left h.flip hy

/-- What corresponding members have in common, the lists have in common. -/
theorem map_eq_of_forall₂ {R : β → γ → Prop} {f : β → σ} {g : γ → σ} {xs : List β} {ys : List γ}
    (h : List.Forall₂ R xs ys) (hR : ∀ x y, R x y → g y = f x) : ys.map g = xs.map f := by
  rw [← List.forall₂_eq_eq_eq, List.forall₂_map_left_iff, List.forall₂_map_right_iff]
  exact h.flip.imp fun y x hxy => hR x y hxy

theorem foldlM_cons_ok_iff {step : σ → β → Except ε σ} {x : β} {xs : List β} {s t : σ} :
    (x :: xs).foldlM step s = .ok t ↔ ∃ m, step s x = .ok m ∧ xs.foldlM step m = .ok t := by
  rw [List.foldlM_cons, bind_ok_iff]

theorem foldlM_keeps {step : σ → β → Except ε σ} (Inv : σ → Prop) {xs : List β}
    (keeps : ∀ s x, x ∈ xs → Inv s → ∀ s', step s x = .ok s' → Inv s') {s t : σ} (hs : Inv s)
    (h : xs.foldlM step s = .ok t) : Inv t := by
  induction xs generalizing s with
  | nil =>
    rw [List.foldlM_nil, pure_ok_iff] at h
    exact h ▸ hs
  | cons x xs ih =>
    obtain ⟨m, hm, h⟩ := foldlM_cons_ok_iff.1 h
    exact ih (fun s y hy => keeps s y (by simp [hy])) (keeps s x (by simp) hs m hm) h

/-- What the steps of two passes over one list keep between their states. -/
theorem foldlM_keeps_both {step : σ → β → Except ε σ} {step' : τ → β → Except ε τ}
    (R : σ → τ → Prop) {xs : List β}
    (keeps : ∀ s t x, x ∈ xs → R s t → ∀ s' t', step s x = .ok s' → step' t x = .ok t' → R s' t')
    {s s' : σ} {t t' : τ} (h : R s t) (hs : xs.foldlM step s = .ok s')
    (ht : xs.foldlM step' t = .ok t') : R s' t' := by
  induction xs generalizing s t with
  | nil =>
    obtain rfl := pure_ok_iff.1 hs
    obtain rfl := pure_ok_iff.1 ht
    exact h
  | cons x xs ih =>
    obtain ⟨m, hm, hs⟩ := foldlM_cons_ok_iff.1 hs
    obtain ⟨n, hn, ht⟩ := foldlM_cons_ok_iff.1 ht
    exact ih (fun s t y hy => keeps s t y (by simp [hy])) (keeps s t x (by simp) h m n hm hn) hs ht

/-- A pass whose steps succeed under an invariant that they keep succeeds. -/
theorem foldlM_total {step : σ → β → Except ε σ} (Inv : σ → Prop) {xs : List β}
    (total : ∀ s x, x ∈ xs → Inv s → ∃ s', step s x = .ok s' ∧ Inv s') {s : σ} (hs : Inv s) :
    ∃ t, xs.foldlM step s = .ok t ∧ Inv t := by
  induction xs generalizing s with
  | nil => exact ⟨s, rfl, hs⟩
  | cons x xs ih =>
    obtain ⟨m, hm, hInv⟩ := total s x (by simp) hs
    obtain ⟨t, ht, hInv⟩ := ih (fun s y hy => total s y (by simp [hy])) hInv
    exact ⟨t, foldlM_cons_ok_iff.2 ⟨m, hm, ht⟩, hInv⟩

end Infill
