import Infill.Proofs.Scalar.Exact
import Infill.Proofs.Series.Dimensions
import Infill.Score

/-! Integration inverts differencing. The differences of a continued series are those of the series,
and then the differences of its continuation, for which the values it continues are looked up behind
it. Integration looks up the same values: on exact numbers each of the two undoes the other. -/

namespace Infill

section Continuation

variable {α : Type} [Scalar α]

/-- Every value less the one `lag` steps before it, `past` lying behind the first. -/
def differenceFrom (lag : Nat) (past : List α) : List α → List α
  | [] => []
  | x :: rest => (x - (Past.back? past lag).getD 0) :: differenceFrom lag (x :: past) rest

theorem length_differenceFrom (lag : Nat) (past future : List α) :
    (differenceFrom lag past future).length = future.length := by
  induction future generalizing past with
  | nil => rfl
  | cons x rest ih => simp [differenceFrom, ih]

theorem length_differenceAt {lag : Nat} (h : 0 < lag) (series : List α) :
    (differenceAt lag series).length = series.length - lag := by
  rw [differenceAt, if_neg h.ne', List.length_zipWith, List.length_drop]
  omega

/-- The value that the next one is compared with is the first of the last `lag` values. -/
theorem differenceAt_concat {lag : Nat} {history : List α} (hlag : 0 < lag)
    (hlong : lag ≤ history.length) (x : α) :
    differenceAt lag (history ++ [x]) =
      differenceAt lag history ++ [x - (Past.back? history.reverse lag).getD 0] := by
  obtain ⟨before, last, hsplit, hlength⟩ : ∃ before last, history = before ++ last ∧
      last.length = lag :=
    ⟨history.take (history.length - lag), history.drop (history.length - lag),
      (List.take_append_drop _ _).symm, by rw [List.length_drop]; omega⟩
  obtain ⟨y, last, rfl⟩ := List.exists_cons_of_length_pos (hlength ▸ hlag)
  have hback : Past.back? history.reverse lag = some y := by
    rw [← hlength, hsplit]
    simp [Past.back?]
  have hdrop : (history.drop lag).length = before.length := by
    rw [hsplit, List.length_drop, List.length_append, hlength]
    omega
  have hcut : ∀ rest : List α, List.zipWith (· - ·) (history.drop lag ++ rest) (history ++ rest) =
      List.zipWith (· - ·) (history.drop lag) before ++
        List.zipWith (· - ·) rest (y :: last ++ rest) := by
    intro rest
    rw [← List.zipWith_append hdrop, ← List.append_assoc, ← hsplit]
  have hnow := hcut []
  rw [List.append_nil, List.append_nil, List.zipWith_nil_left, List.append_nil] at hnow
  have hnext := hcut [x]
  simp only [List.cons_append, List.zipWith_cons_cons, List.zipWith_nil_left] at hnext
  rw [differenceAt, differenceAt, if_neg hlag.ne', if_neg hlag.ne',
    List.drop_append_of_le_length hlong, hnext, hnow, hback, Option.getD_some]

theorem differenceAt_append {lag : Nat} (hlag : 0 < lag) {history : List α}
    (hlong : lag ≤ history.length) (future : List α) :
    differenceAt lag (history ++ future) =
      differenceAt lag history ++ differenceFrom lag history.reverse future := by
  induction future generalizing history with
  | nil => simp [differenceFrom]
  | cons x rest ih =>
    have hlonger : lag ≤ (history ++ [x]).length := by
      rw [List.length_append]
      exact Nat.le_add_right_of_le hlong
    calc differenceAt lag (history ++ x :: rest)
      _ = differenceAt lag (history ++ [x] ++ rest) := by rw [List.append_assoc]; rfl
      _ = differenceAt lag (history ++ [x]) ++ differenceFrom lag (history ++ [x]).reverse rest :=
        ih hlonger
      _ = differenceAt lag history ++ differenceFrom lag history.reverse (x :: rest) := by
        rw [differenceAt_concat hlag hlong, List.reverse_append, List.append_assoc]
        rfl

namespace Differencing

def differenceLags : List Nat → List α → List α → List α
  | [], _, future => future
  | lag :: lags, history, future =>
    differenceLags lags (differenceAt lag history) (differenceFrom lag history.reverse future)

theorem length_differenceLags (lags : List Nat) (history future : List α) :
    (differenceLags lags history future).length = future.length := by
  induction lags generalizing history future with
  | nil => rfl
  | cons lag lags ih => rw [differenceLags, ih, length_differenceFrom]

theorem pos_of_mem_lags {c : Differencing} {lag : Nat} (h : lag ∈ c.lags) : 0 < lag := by
  rw [lags, List.mem_append] at h
  rcases h with h | h
  · rw [List.eq_of_mem_replicate h]
    exact Nat.one_pos
  · split_ifs at h with hperiod
    · rwa [List.eq_of_mem_replicate h]
    · cases h

theorem loss_eq_sum (c : Differencing) : c.loss = c.lags.sum := (List.sum_eq_foldl).symm

theorem length_foldl_differenceAt {lags : List Nat} (hlags : ∀ lag ∈ lags, 0 < lag)
    (series : List α) :
    (lags.foldl (fun xs lag => differenceAt lag xs) series).length = series.length - lags.sum := by
  induction lags generalizing series with
  | nil => rfl
  | cons lag lags ih =>
    rw [List.foldl_cons, ih fun l hl => hlags l (List.mem_cons_of_mem _ hl),
      length_differenceAt (hlags lag List.mem_cons_self), List.sum_cons, Nat.sub_sub]

/-- Every lag takes as many values away. -/
theorem length_apply (c : Differencing) (series : List α) :
    (c.apply series).length = series.length - c.loss := by
  rw [loss_eq_sum]
  exact length_foldl_differenceAt (fun _ => pos_of_mem_lags) series

theorem foldl_differenceAt_append {lags : List Nat} (hlags : ∀ lag ∈ lags, 0 < lag)
    {history : List α} (hlong : lags.sum ≤ history.length) (future : List α) :
    lags.foldl (fun xs lag => differenceAt lag xs) (history ++ future) =
      lags.foldl (fun xs lag => differenceAt lag xs) history ++
        differenceLags lags history future := by
  induction lags generalizing history future with
  | nil => rfl
  | cons lag lags ih =>
    rw [List.sum_cons] at hlong
    have hlag := hlags lag List.mem_cons_self
    have hrest : lags.sum ≤ (differenceAt lag history).length := by
      rw [length_differenceAt hlag]
      omega
    rw [List.foldl_cons, differenceAt_append hlag (by omega),
      ih (fun l hl => hlags l (List.mem_cons_of_mem _ hl)) hrest]
    rfl

theorem apply_append (c : Differencing) {history : List α} (h : c.loss ≤ history.length)
    (future : List α) :
    c.apply (history ++ future) = c.apply history ++ differenceLags c.lags history future :=
  foldl_differenceAt_append (fun _ => pos_of_mem_lags) (loss_eq_sum c ▸ h) future

/-- The chain uses a series up if it has no more values than the chain takes away. -/
theorem apply_eq_nil_iff {c : Differencing} {series : List α} :
    c.apply series = [] ↔ series.length ≤ c.loss := by
  rw [← List.length_eq_zero_iff, length_apply, Nat.sub_eq_zero_iff_le]

/-- A chain with a lag asks for more values than it takes away. -/
theorem integrate_error_iff {c : Differencing} {history future : List α} (hlags : c.lags ≠ []) :
    (∃ e, c.integrate history future = .error e) ↔ c.apply history = [] := by
  rw [apply_eq_nil_iff, integrate, if_neg (mt List.isEmpty_iff.1 hlags)]
  split_ifs with hshort <;> simp [hshort]

theorem integrate_eq_ok {c : Differencing} {history : List α} (h : c.loss < history.length)
    (future : List α) : c.integrate history future = .ok (integrateLags c.lags history future) := by
  unfold integrate
  split_ifs with hempty hshort
  · rw [List.isEmpty_iff.1 hempty]
    rfl
  · omega
  · rfl

end Differencing

end Continuation

section Inverses

variable {K : Type} [ExactNumber K]

open Scalar (isFinite)

namespace Exact

/-- What is taken away can be added again, if it is a number. -/
theorem sub_add_of_isFinite {y : Exact K} (hy : isFinite y = true) (x : Exact K) :
    x - y + y = x := by
  rcases y with y | -
  · rcases x with x | -
    · exact congrArg number (sub_add_cancel x y)
    · rfl
  · cases hy

theorem add_sub_of_isFinite {y : Exact K} (hy : isFinite y = true) (x : Exact K) :
    x + y - y = x := by
  rcases y with y | -
  · rcases x with x | -
    · exact congrArg number (add_sub_cancel_right x y)
    · rfl
  · cases hy

theorem isFinite_add {x y : Exact K} (hx : isFinite x = true) (hy : isFinite y = true) :
    isFinite (x + y) = true := by
  rcases x with x | - <;> rcases y with y | - <;> trivial

theorem isFinite_sub {x y : Exact K} (hx : isFinite x = true) (hy : isFinite y = true) :
    isFinite (x - y) = true := by
  rcases x with x | - <;> rcases y with y | - <;> trivial

def Numbers (xs : List (Exact K)) : Prop := ∀ x ∈ xs, isFinite x = true

theorem numbers_map (xs : List K) : Numbers (xs.map number) := by
  intro y hy
  obtain ⟨x, -, rfl⟩ := List.mem_map.1 hy
  rfl

namespace Numbers

variable {xs past : List (Exact K)}

theorem cons_iff {x : Exact K} : Numbers (x :: xs) ↔ isFinite x = true ∧ Numbers xs :=
  List.forall_mem_cons

/-- The values that are looked up are numbers: what lies behind the past counts as zero. -/
theorem back (h : Numbers past) (lag : Nat) : isFinite ((Past.back? past lag).getD 0) = true := by
  cases hback : Past.back? past lag with
  | none => rfl
  | some x =>
    cases lag with
    | zero => cases hback
    | succ k => exact h x (List.mem_of_getElem? hback)

theorem reverse (h : Numbers xs) : Numbers xs.reverse := fun x hx => h x (List.mem_reverse.1 hx)

theorem differenceAt (h : Numbers xs) (lag : Nat) : Numbers (differenceAt lag xs) := by
  intro z hz
  unfold Infill.differenceAt at hz
  split_ifs at hz
  · cases hz
  · obtain ⟨i, hi⟩ := List.mem_iff_getElem?.1 hz
    obtain ⟨x, y, hx, hy, rfl⟩ := List.getElem?_zipWith_eq_some.1 hi
    exact isFinite_sub (h x (List.mem_of_mem_drop (List.mem_of_getElem? hx)))
      (h y (List.mem_of_getElem? hy))

theorem differenceFrom (hpast : Numbers past) (h : Numbers xs) (lag : Nat) :
    Numbers (differenceFrom lag past xs) := by
  induction xs generalizing past with
  | nil => exact h
  | cons x rest ih =>
    obtain ⟨hx, hrest⟩ := cons_iff.1 h
    exact cons_iff.2 ⟨isFinite_sub hx (hpast.back lag), ih (cons_iff.2 ⟨hx, hpast⟩) hrest⟩

end Numbers

end Exact

open Exact

/-- The differences of a continuation are continued by the continuation. -/
theorem restoreFrom_differenceFrom {past future : List (Exact K)} (hpast : Numbers past)
    (hfuture : Numbers future) (lag : Nat) :
    restoreFrom lag past (differenceFrom lag past future) = future := by
  induction future generalizing past with
  | nil => rfl
  | cons x rest ih =>
    obtain ⟨hx, hrest⟩ := Numbers.cons_iff.1 hfuture
    rw [differenceFrom, restoreFrom, sub_add_of_isFinite (hpast.back lag),
      ih (Numbers.cons_iff.2 ⟨hx, hpast⟩) hrest]

theorem numbers_restoreFrom {past future : List (Exact K)} (hpast : Numbers past)
    (hfuture : Numbers future) (lag : Nat) : Numbers (restoreFrom lag past future) := by
  induction future generalizing past with
  | nil => exact hfuture
  | cons w rest ih =>
    obtain ⟨hw, hrest⟩ := Numbers.cons_iff.1 hfuture
    have hx := isFinite_add hw (hpast.back lag)
    exact Numbers.cons_iff.2 ⟨hx, ih (Numbers.cons_iff.2 ⟨hx, hpast⟩) hrest⟩

theorem differenceFrom_restoreFrom {past future : List (Exact K)} (hpast : Numbers past)
    (hfuture : Numbers future) (lag : Nat) :
    differenceFrom lag past (restoreFrom lag past future) = future := by
  induction future generalizing past with
  | nil => rfl
  | cons w rest ih =>
    obtain ⟨hw, hrest⟩ := Numbers.cons_iff.1 hfuture
    have hx := isFinite_add hw (hpast.back lag)
    rw [restoreFrom, differenceFrom, add_sub_of_isFinite (hpast.back lag),
      ih (Numbers.cons_iff.2 ⟨hx, hpast⟩) hrest]

namespace Differencing

theorem integrateLags_differenceLags {history future : List (Exact K)} (hhistory : Numbers history)
    (hfuture : Numbers future) (lags : List Nat) :
    integrateLags lags history (differenceLags lags history future) = future := by
  induction lags generalizing history future with
  | nil => rfl
  | cons lag lags ih =>
    rw [differenceLags, integrateLags,
      ih (hhistory.differenceAt lag) (hhistory.reverse.differenceFrom hfuture lag),
      restoreFrom_differenceFrom hhistory.reverse hfuture]

theorem numbers_integrateLags {history future : List (Exact K)} (hhistory : Numbers history)
    (hfuture : Numbers future) (lags : List Nat) : Numbers (integrateLags lags history future) := by
  induction lags generalizing history with
  | nil => exact hfuture
  | cons lag lags ih =>
    exact numbers_restoreFrom hhistory.reverse (ih (hhistory.differenceAt lag)) lag

theorem differenceLags_integrateLags {history future : List (Exact K)} (hhistory : Numbers history)
    (hfuture : Numbers future) (lags : List Nat) :
    differenceLags lags history (integrateLags lags history future) = future := by
  induction lags generalizing history with
  | nil => rfl
  | cons lag lags ih =>
    have hlevel := hhistory.differenceAt lag
    rw [integrateLags, differenceLags, differenceFrom_restoreFrom hhistory.reverse
      (numbers_integrateLags hlevel hfuture lags), ih hlevel]

/-- The differences of what comes after a history are enough to get it back. -/
theorem integrate_lastValues (c : Differencing) {history future : List (Exact K)}
    (hhistory : Numbers history) (hfuture : Numbers future) (h : c.loss < history.length) :
    c.integrate history (Score.lastValues future.length (c.apply (history ++ future))) =
      .ok future := by
  have hlast : Score.lastValues future.length (c.apply (history ++ future)) =
      differenceLags c.lags history future := by
    have hlength := length_differenceLags c.lags history future
    rw [apply_append c h.le, Score.lastValues, List.length_append, hlength, Nat.add_sub_cancel,
      List.drop_left]
  rw [hlast, integrate_eq_ok h, integrateLags_differenceLags hhistory hfuture]

/-- What integration continues a history with has the differences that were integrated. -/
theorem apply_of_integrate {c : Differencing} {history w future : List (Exact K)}
    (hhistory : Numbers history) (hw : Numbers w) (hlong : c.loss < history.length)
    (h : c.integrate history w = .ok future) :
    c.apply (history ++ future) = c.apply history ++ w := by
  rw [integrate_eq_ok hlong] at h
  obtain rfl := Except.ok.inj h
  rw [apply_append c hlong.le, differenceLags_integrateLags hhistory hw]

/-- A chain and its integration are inverses of each other on every history that the chain leaves
something of, and on no other does a chain with a lag integrate. -/
theorem integrate_inverts (c : Differencing) :
    (∀ history : List K, c.loss < history.length →
      (∀ future : List K, c.integrate (history.map number) (Score.lastValues future.length
        (c.apply (history.map number ++ future.map number))) = .ok (future.map number)) ∧
      ∀ (w : List K) (f : List (Exact K)), c.integrate (history.map number) (w.map number) = .ok f →
        c.apply (history.map number ++ f) = c.apply (history.map number) ++ w.map number) ∧
    (∀ series : List (Exact K),
      (c.loss < series.length → (c.apply series).length = series.length - c.loss) ∧
      (series.length ≤ c.loss → c.apply series = [])) ∧
    ∀ history w : List (Exact K), c.lags ≠ [] →
      ((∃ e, c.integrate history w = .error e) ↔ c.apply history = []) := by
  refine ⟨fun history h => ⟨fun future => ?_, fun w f hok => ?_⟩, fun series => ⟨fun _ => ?_, ?_⟩,
    fun history w => integrate_error_iff⟩
  · have hlong : c.loss < (history.map number).length := by rwa [List.length_map]
    have hback := integrate_lastValues c (numbers_map history) (numbers_map future) hlong
    rwa [List.length_map] at hback
  · have hlong : c.loss < (history.map number).length := by rwa [List.length_map]
    exact apply_of_integrate (numbers_map history) (numbers_map w) hlong hok
  · exact length_apply c series
  · exact apply_eq_nil_iff.2

/-- A quarterly series with a trend, differenced once and once more at a lag of a year. -/
theorem quarterly_integrates :
    (⟨1, 1, 4⟩ : Differencing).integrate ([3, -1, 2, 0, 5, 1, 4].map number)
      (Score.lastValues 3 ((⟨1, 1, 4⟩ : Differencing).apply
        ([3, -1, 2, 0, 5, 1, 4].map number ++ [(2 : ℚ), 7, 3].map number))) =
      .ok ([2, 7, 3].map number) ∧
    ∃ f, (⟨1, 1, 4⟩ : Differencing).integrate ([3, -1, 2, 0, 5, 1, 4].map number)
        ([(1 : ℚ), -2].map number) = .ok f ∧
      (⟨1, 1, 4⟩ : Differencing).apply ([3, -1, 2, 0, 5, 1, 4].map number ++ f) =
        (⟨1, 1, 4⟩ : Differencing).apply ([3, -1, 2, 0, 5, 1, 4].map number) ++
          [1, -2].map number := by
  obtain ⟨hinverse, -, -⟩ := integrate_inverts (K := ℚ) ⟨1, 1, 4⟩
  obtain ⟨hback, hforward⟩ := hinverse [3, -1, 2, 0, 5, 1, 4] (by decide)
  obtain ⟨f, hok⟩ : ∃ f, (⟨1, 1, 4⟩ : Differencing).integrate
      ([3, -1, 2, 0, 5, 1, 4].map number) ([(1 : ℚ), -2].map number) = .ok f :=
    ⟨_, integrate_eq_ok (by decide) _⟩
  exact ⟨hback [2, 7, 3], f, hok, hforward [1, -2] f hok⟩

end Differencing

end Inverses

end Infill
