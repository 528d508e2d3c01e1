import Infill.Proofs.Linear.Numbers

/-! A process goes on from its own predictions. A point that is all that its past explains leaves no
innovation, wherever it stands: before the longest lag there is none in any case, and behind it
nothing is left over. So a series taken in with its continuation leads to the past that the
continuation has gone through, and what follows from there is what would have followed at once. -/

namespace Infill

open Exact (number Numbers)
open Scalar (isFinite)

theorem Past.mem_of_back? {β : Type} {past : List β} {lag : Nat} {x : β}
    (h : back? past lag = some x) : x ∈ past := by
  cases lag with
  | zero => cases h
  | succ k => exact List.mem_of_getElem? h

namespace Arma

section Steps

variable {α : Type} [Scalar α]

/-- What lies behind a process that has gone some steps ahead, without innovations on the way. -/
def passed (a : Arma α) (past : List (Moment α)) (steps : Nat) : List (Moment α) :=
  ((a.ahead past steps).map fun x => (x, 0)).reverse ++ past

theorem passed_succ (a : Arma α) (past : List (Moment α)) (steps : Nat) :
    a.passed past (steps + 1) = a.passed ((a.predictNext past, 0) :: past) steps := by
  rw [passed, ahead, List.map_cons, List.reverse_cons, List.append_assoc]
  rfl

theorem ahead_add (a : Arma α) (past : List (Moment α)) (m n : Nat) :
    a.ahead past (m + n) = a.ahead past m ++ a.ahead (a.passed past m) n := by
  induction m generalizing past with
  | zero => rw [Nat.zero_add]; rfl
  | succ m ih => rw [Nat.add_right_comm, ahead, ahead, ih, ← passed_succ, List.cons_append]

theorem innovations_passed (a : Arma α) (past : List (Moment α)) (steps : Nat) :
    ((a.passed past steps).map (·.2)).reverse =
      (past.map (·.2)).reverse ++ List.replicate steps 0 := by
  have hzeros : (a.ahead past steps).map (fun _ => (0 : α)) = List.replicate steps 0 := by
    rw [List.map_const', length_ahead]
  rw [passed, List.map_append, List.reverse_append, List.map_reverse, List.reverse_reverse,
    List.map_map, ← hzeros]
  rfl

theorem history_append (a : Arma α) (w v : List α) :
    a.history (w ++ v) = v.foldl a.observe (a.history w) :=
  List.foldl_append

end Steps

section Numbers

variable {K : Type} [ExactNumber K]

structure Numeric (a : Arma (Exact K)) : Prop where
  constant : isFinite a.constant = true
  ar : ∀ c ∈ a.ar, isFinite c.2 = true
  ma : ∀ c ∈ a.ma, isFinite c.2 = true
  mean : isFinite a.mean = true

def NumericPast (past : List (Moment (Exact K))) : Prop :=
  ∀ moment ∈ past, isFinite moment.1 = true ∧ isFinite moment.2 = true

variable {a : Arma (Exact K)} {past : List (Moment (Exact K))}

namespace Numeric

theorem predictNext (ha : a.Numeric) (hpast : NumericPast past) :
    isFinite (a.predictNext past) = true := by
  refine Exact.isFinite_add (Exact.isFinite_add ha.constant ?_) ?_
  · refine Numbers.isFinite_sum (List.forall_mem_map.2 fun (lag, c) hc => ?_)
    refine Exact.isFinite_mul (ha.ar (lag, c) hc) ?_
    cases hback : Past.back? past lag with
    | none => exact ha.mean
    | some moment => exact (hpast moment (Past.mem_of_back? hback)).1
  · refine Numbers.isFinite_sum (List.forall_mem_map.2 fun (lag, c) hc => ?_)
    dsimp only
    cases hback : Past.back? past lag with
    | none => rfl
    | some moment =>
      exact Exact.isFinite_mul (ha.ma (lag, c) hc) (hpast moment (Past.mem_of_back? hback)).2

theorem observe (ha : a.Numeric) (hpast : NumericPast past) {x : Exact K}
    (hx : isFinite x = true) : NumericPast (a.observe past x) := by
  refine List.forall_mem_cons.2 ⟨⟨hx, ?_⟩, hpast⟩
  dsimp only
  split_ifs
  · rfl
  · exact Exact.isFinite_sub hx (ha.predictNext hpast)

theorem history (ha : a.Numeric) {w : List (Exact K)} (hw : Numbers w) :
    NumericPast (a.history w) :=
  List.foldlRecOn w a.observe (List.forall_mem_nil _) fun _ hpast x hx => ha.observe hpast (hw x hx)

/-- A point that is all that its past explains leaves no innovation. -/
theorem observe_predictNext (ha : a.Numeric) (hpast : NumericPast past) :
    a.observe past (a.predictNext past) = (a.predictNext past, 0) :: past := by
  have hnumber := ha.predictNext hpast
  rw [Arma.observe]
  split_ifs
  · rfl
  · generalize a.predictNext past = x at hnumber ⊢
    rcases x with x | -
    · exact congrArg (fun e => (number x, number e) :: past) (sub_self x)
    · cases hnumber

/-- Taking in what it predicts, a process passes through its predictions. -/
theorem foldl_observe_ahead (ha : a.Numeric) (hpast : NumericPast past) (steps : Nat) :
    (a.ahead past steps).foldl a.observe past = a.passed past steps := by
  induction steps generalizing past with
  | zero => rfl
  | succ steps ih =>
    have hnext : NumericPast ((a.predictNext past, 0) :: past) :=
      List.forall_mem_cons.2 ⟨⟨ha.predictNext hpast, rfl⟩, hpast⟩
    rw [ahead, List.foldl_cons, ha.observe_predictNext hpast, ih hnext, passed_succ]

theorem history_extend (ha : a.Numeric) {w : List (Exact K)} (hw : Numbers w) (steps : Nat) :
    a.history (w ++ a.extend w steps) = a.passed (a.history w) steps := by
  rw [history_append, extend, ha.foldl_observe_ahead (ha.history hw)]

end Numeric

def exact (a : Arma K) : Arma (Exact K) :=
  ⟨number a.constant, a.ar.map fun (lag, c) => (lag, number c),
    a.ma.map fun (lag, c) => (lag, number c), number a.mean⟩

theorem exact_numeric (a : Arma K) : a.exact.Numeric where
  constant := rfl
  ar := List.forall_mem_map.2 fun _ _ => rfl
  ma := List.forall_mem_map.2 fun _ _ => rfl
  mean := rfl

/-- Steps ahead of a series may be taken in two parts, the second of which starts from the series with
the first ones behind it. Those are points of the series like the others, and leave no innovations. -/
theorem extend_composes (a : Arma K) (w : List K) (m n : Nat) :
    a.exact.extend (w.map number) (m + n) = a.exact.extend (w.map number) m ++
        a.exact.extend (w.map number ++ a.exact.extend (w.map number) m) n ∧
      a.exact.residuals (w.map number ++ a.exact.extend (w.map number) m) =
        a.exact.residuals (w.map number) ++ List.replicate m 0 := by
  have hpassed := a.exact_numeric.history_extend (Exact.numbers_map w) m
  constructor
  · calc a.exact.extend (w.map number) (m + n)
      _ = a.exact.extend (w.map number) m ++
            a.exact.ahead (a.exact.passed (a.exact.history (w.map number)) m) n := ahead_add ..
      _ = a.exact.extend (w.map number) m ++
            a.exact.extend (w.map number ++ a.exact.extend (w.map number) m) n := by
          rw [← hpassed, extend, extend]
  · rw [residuals, hpassed, innovations_passed, residuals]

end Numbers

end Arma
end Infill
