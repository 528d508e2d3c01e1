import Infill.Proofs.Series.LoneFit

/-! Entries of a series by their time. The past of a point is the beginning of the series read
backwards, so what lies some steps behind the point is an entry of the series if the steps do not lead
out of it. Where they do, an estimate puts something in the place of the entry; a strict reading
stops. -/

namespace Infill

/-- Why a strict estimate stops: for an error of the estimate, for an entry that is not there, or for a
regression with fewer rows than parameters. -/
inductive Stop
  | error (e : Error)
  | noEntry
  | fewRows

variable {β γ : Type}

/-- The times from `first` on, up to the end of a series of `count` points. -/
def timesFrom (first count : Nat) : List Nat := List.range' first (count - first)

/-- The entry `lag` steps in front of time `t`, out of entries that begin at time `first`. -/
def entryBack (first : Nat) (xs : List β) (t lag : Nat) : Except Stop β :=
  if first + lag ≤ t then xs[t - lag - first]?.elim (.error .noEntry) .ok else .error .noEntry

theorem mem_timesFrom {first count t : Nat} : t ∈ timesFrom first count ↔ first ≤ t ∧ t < count := by
  rw [timesFrom, List.mem_range'_1]
  omega

theorem length_timesFrom (first count : Nat) : (timesFrom first count).length = count - first :=
  List.length_range'

theorem mem_lagsTo {lag k : Nat} : lag ∈ lagsTo k ↔ 0 < lag ∧ lag ≤ k := by
  rw [lagsTo, List.mem_map]
  constructor
  · rintro ⟨i, hi, rfl⟩
    exact ⟨i.succ_pos, List.mem_range.1 hi⟩
  · rintro ⟨hpos, hle⟩
    exact ⟨lag - 1, List.mem_range.2 (by omega), by omega⟩

theorem entryBack_ok {first t lag : Nat} {xs : List β} {x : β} (h : first + lag ≤ t)
    (hx : xs[t - lag - first]? = some x) : entryBack first xs t lag = .ok x := by
  rw [entryBack, if_pos h, hx]
  rfl

theorem mapM_eq_map {ε : Type} {f : β → Except ε γ} {g : β → γ} {xs : List β}
    (h : ∀ x ∈ xs, f x = .ok (g x)) : xs.mapM f = .ok (xs.map g) :=
  mapM_ok_iff.2 (List.forall₂_map_right_iff.2 (List.forall₂_same.2 h))

namespace Past

theorem getElem?_each (xs : List β) (t : Nat) :
    (each xs)[t]? = xs[t]?.map fun x => ((xs.take t).reverse, x) := by
  have key : ∀ past : List β,
      (eachAfter past xs)[t]? = xs[t]?.map fun x => ((xs.take t).reverse ++ past, x) := by
    induction xs generalizing t with
    | nil => exact fun _ => rfl
    | cons x xs ih =>
      intro past
      cases t with
      | zero => rfl
      | succ t => simp [eachAfter, ih]
  rw [each, key []]
  simp

/-- What is made of the points from a time on and of their pasts, time by time. -/
theorem mapIdx_each_drop (f : Nat → List β → γ) (xs : List β) (first : Nat) :
    ((each xs).mapIdx fun t e => f t e.1).drop first =
      (timesFrom first xs.length).map fun t => f t (xs.take t).reverse := by
  refine List.ext_getElem? fun i => ?_
  rw [List.getElem?_drop, List.getElem?_mapIdx, getElem?_each, List.getElem?_map, timesFrom]
  by_cases hi : first + i < xs.length
  · rw [List.getElem?_range' (by omega), List.getElem?_eq_getElem hi]
    simp
  · have hend : xs[first + i]? = none := List.getElem?_eq_none (Nat.le_of_not_lt hi)
    have hlate : (List.range' first (xs.length - first))[i]? = none :=
      List.getElem?_eq_none (by rw [List.length_range']; omega)
    rw [hend, hlate]
    rfl

theorem map_each_drop (f : List β → γ) (xs : List β) (first : Nat) :
    ((each xs).drop first).map (fun e => f e.1) =
      (timesFrom first xs.length).map fun t => f (xs.take t).reverse := by
  rw [← mapIdx_each_drop fun _ => f, mapIdx_const, List.map_drop]

/-- Some steps behind a point stands the entry of an earlier time. -/
theorem back?_reverse_take {xs : List β} {t lag : Nat} (hlag : 0 < lag) (hle : lag ≤ t)
    (ht : t ≤ xs.length) : back? (xs.take t).reverse lag = xs[t - lag]? := by
  obtain ⟨k, rfl⟩ := Nat.exists_eq_add_of_lt hlag
  have hlength : (xs.take t).length = t := List.length_take_of_le ht
  rw [Nat.zero_add, back?, List.getElem?_reverse (by omega), hlength,
    List.getElem?_take_of_lt (by omega)]
  congr 1
  omega

end Past

end Infill
