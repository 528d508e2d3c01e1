import Mathlib.Data.Nat.Find
import Mathlib.Order.Basic
import Infill.Proofs.Scalar.Exact
import Infill.Proofs.Table.Spread

/-! Closing the gaps of covariates. Every cell of a covariate takes the number that is shown nearest at
or before it, or the first one that is shown at all, so that numbers stay and gaps do not, unless the
column has nothing else. The dates and the series of the target are left alone. -/

namespace Infill

variable {α : Type}

open Table

namespace Carry

section Fill

variable [Scalar α]

def shown (cells : List (Option α)) (row : Nat) : Option α := Scalar.observed cells[row]?.join

/-- The number nearest at or before a row, or the first of all where there is none. -/
inductive Nearest (cells : List (Option α)) (row : Nat) (x : α) : Prop
  | before (source : Nat) (here : shown cells source = some x) (le : source ≤ row)
      (between : ∀ k, source < k → k ≤ row → shown cells k = none)
  | after (source : Nat) (here : shown cells source = some x) (lt : row < source)
      (first : ∀ k, k < source → shown cells k = none)

structure Closes (xs ys : List (Option α)) : Prop where
  length : ys.length = xs.length
  nearest : ∀ row < xs.length, ∀ x, Nearest xs row x → ys[row]? = some (some x)
  dense : (∃ row, shown xs row ≠ none) → ∀ row < xs.length, ∃ x, Nearest xs row x
  empty : (∀ row, shown xs row = none) → ∀ row < xs.length, ys[row]? = some none
  kept : ∀ row, shown xs row ≠ none → ys[row]? = xs[row]?
  again : fill ys = ys

variable {cells : List (Option α)} {row source : Nat} {x : α}

theorem lt_length_of_shown (h : shown cells row = some x) : row < cells.length := by
  by_contra hout
  rw [shown, List.getElem?_eq_none (Nat.le_of_not_lt hout)] at h
  cases h

theorem getElem?_of_shown (h : shown cells row = some x) : cells[row]? = some (some x) := by
  have hrow := lt_length_of_shown h
  rw [shown, List.getElem?_eq_getElem hrow, Option.join_some] at h
  rw [List.getElem?_eq_getElem hrow]
  cases hcell : cells[row] with
  | none =>
    rw [hcell] at h
    cases h
  | some y =>
    rw [hcell, Scalar.observed] at h
    split_ifs at h
    rw [Option.some.inj h]

theorem forward_start {last : Option α} (hrow : row < cells.length)
    (hnone : ∀ k, k ≤ row → shown cells k = none) : (forward last cells)[row]? = some last := by
  induction cells generalizing last row with
  | nil => cases hrow
  | cons cell cells ih =>
    have hseen : (Scalar.observed cell).or last = last := by
      have hfirst : Scalar.observed cell = none := hnone 0 (Nat.zero_le row)
      rw [hfirst, Option.none_or]
    rw [forward, hseen]
    cases row with
    | zero => rfl
    | succ row => exact ih (Nat.lt_of_succ_lt_succ hrow) fun k hk => hnone (k + 1) (by omega)

theorem forward_before {last : Option α} (hrow : row < cells.length)
    (hhere : shown cells source = some x) (hle : source ≤ row)
    (hbetween : ∀ k, source < k → k ≤ row → shown cells k = none) :
    (forward last cells)[row]? = some (some x) := by
  induction cells generalizing last row source with
  | nil => cases hrow
  | cons cell cells ih =>
    rw [forward]
    cases source with
    | zero =>
      have hseen : Scalar.observed cell = some x := hhere
      cases row with
      | zero => simp [hseen]
      | succ row =>
        rw [hseen, Option.some_or, List.getElem?_cons_succ]
        exact forward_start (Nat.lt_of_succ_lt_succ hrow) fun k hk =>
          hbetween (k + 1) (Nat.succ_pos k) (by omega)
    | succ source =>
      obtain ⟨row, rfl⟩ : ∃ k, row = k + 1 := ⟨row - 1, by omega⟩
      exact ih (Nat.lt_of_succ_lt_succ hrow) hhere (by omega) fun k hlt hk =>
        hbetween (k + 1) (by omega) (by omega)

omit [Scalar α] in
/-- A cell that holds something stays, and another one takes the next that does. -/
theorem backward_next (hhere : cells[source]? = some (some x)) (hle : row ≤ source)
    (hbetween : ∀ k, row ≤ k → k < source → cells[k]? = some none) :
    (backward cells)[row]? = some (some x) := by
  induction cells generalizing row source with
  | nil => cases hhere
  | cons cell cells ih =>
    rw [backward]
    cases row with
    | zero =>
      cases source with
      | zero =>
        obtain rfl : cell = some x := by simpa using hhere
        rfl
      | succ source =>
        obtain rfl : cell = none := by simpa using hbetween 0 (Nat.le_refl 0) (Nat.succ_pos source)
        have hnext : (backward cells)[0]? = some (some x) :=
          ih hhere (Nat.zero_le source) fun k _ hk => hbetween (k + 1) (Nat.zero_le _) (by omega)
        rw [← List.head?_eq_getElem?] at hnext
        simp [hnext]
    | succ row =>
      obtain ⟨source, rfl⟩ : ∃ k, source = k + 1 := ⟨source - 1, by omega⟩
      exact ih hhere (by omega) fun k hk hlt => hbetween (k + 1) (by omega) (by omega)

omit [Scalar α] in
theorem backward_empty (hnone : ∀ k < cells.length, cells[k]? = some none)
    (hrow : row < cells.length) : (backward cells)[row]? = some none := by
  induction cells generalizing row with
  | nil => cases hrow
  | cons cell cells ih =>
    obtain rfl : cell = none := by simpa using hnone 0 (by simp)
    have hrest : ∀ k < cells.length, cells[k]? = some none := fun k hk =>
      hnone (k + 1) (by simpa using hk)
    rw [backward]
    cases row with
    | zero =>
      cases hcells : cells with
      | nil => rfl
      | cons next later =>
        have hfirst : 0 < cells.length := by simp [hcells]
        have hnext := ih hrest hfirst
        rw [← hcells]
        rw [← List.head?_eq_getElem?] at hnext
        simp [hnext]
    | succ row => exact ih hrest (Nat.lt_of_succ_lt_succ hrow)

theorem fill_nearest (hrow : row < cells.length) (h : Nearest cells row x) :
    (fill cells)[row]? = some (some x) := by
  cases h with
  | before source hhere hle hbetween =>
    exact backward_next (forward_before hrow hhere hle hbetween) (Nat.le_refl row)
      fun k hk hlt => absurd hlt (Nat.not_lt_of_le hk)
  | after source hhere hlt hfirst =>
    refine backward_next (forward_before (lt_length_of_shown hhere) hhere (Nat.le_refl source) ?_)
      (Nat.le_of_lt hlt) fun k _ hk => ?_
    · exact fun k hlt hk => absurd hlt (Nat.not_lt_of_le hk)
    · exact forward_start (hk.trans (lt_length_of_shown hhere)) fun j hj =>
        hfirst j (Nat.lt_of_le_of_lt hj hk)

theorem fill_empty (hnone : ∀ row, shown cells row = none) (hrow : row < cells.length) :
    (fill cells)[row]? = some none := by
  refine backward_empty (fun k hk => ?_) (by rwa [length_forward])
  exact forward_start (by rwa [length_forward] at hk) fun j _ => hnone j

/-- Where a column shows a number, every row has one nearest to it. -/
theorem exists_nearest (h : ∃ row, shown cells row ≠ none) (row : Nat) :
    ∃ x, Nearest cells row x := by
  classical
  by_cases hbefore : ∃ k ≤ row, shown cells k ≠ none
  · obtain ⟨k, hk, hshown⟩ := hbefore
    obtain ⟨x, hx⟩ := Option.ne_none_iff_exists'.1
      (Nat.findGreatest_spec (P := fun k => shown cells k ≠ none) hk hshown)
    refine ⟨x, .before _ hx (Nat.findGreatest_le row) fun k hlt hk => ?_⟩
    exact not_not.1 (Nat.findGreatest_is_greatest hlt hk)
  · push Not at hbefore
    obtain ⟨x, hx⟩ := Option.ne_none_iff_exists'.1 (Nat.find_spec h)
    refine ⟨x, .after _ hx ?_ fun k hk => not_not.1 (Nat.find_min h hk)⟩
    by_contra hle
    exact Nat.find_spec h (hbefore _ (Nat.le_of_not_lt hle))

theorem fill_kept (h : shown cells row ≠ none) : (fill cells)[row]? = cells[row]? := by
  obtain ⟨x, hx⟩ := Option.ne_none_iff_exists'.1 h
  rw [getElem?_of_shown hx]
  exact fill_nearest (lt_length_of_shown hx) (.before row hx (Nat.le_refl row)
    fun k hlt hk => absurd hlt (Nat.not_lt_of_le hk))

theorem Nearest.observed (h : Nearest cells row x) : Scalar.observed (some x) = some x := by
  obtain ⟨source, hhere⟩ : ∃ source, shown cells source = some x := by
    cases h with
    | before source hhere => exact ⟨source, hhere⟩
    | after source hhere => exact ⟨source, hhere⟩
  have hcell := getElem?_of_shown hhere
  rwa [shown, hcell, Option.join_some] at hhere

theorem fill_fill (cells : List (Option α)) : fill (fill cells) = fill cells := by
  refine List.ext_getElem? fun row => ?_
  by_cases hrow : row < cells.length
  -- Once filled, a column that showed a number shows one in every row, and another one shows none.
  · by_cases hany : ∃ row, shown cells row ≠ none
    · obtain ⟨x, hx⟩ := exists_nearest hany row
      refine fill_kept ?_
      rw [shown, fill_nearest hrow hx, Option.join_some, hx.observed]
      exact Option.some_ne_none x
    · push Not at hany
      have hnone : ∀ row, shown (fill cells) row = none := by
        intro k
        by_cases hk : k < cells.length
        · rw [shown, fill_empty hany hk]
          rfl
        · rw [shown, List.getElem?_eq_none (by rw [length_fill]; omega)]
          rfl
      rw [fill_empty hnone (by rwa [length_fill]), fill_empty hany hrow]
  · have hlength : (fill (fill cells)).length = (fill cells).length := length_fill _
    rw [List.getElem?_eq_none (by rw [hlength, length_fill]; omega),
      List.getElem?_eq_none (by rw [length_fill]; omega)]

theorem fill_closes (cells : List (Option α)) : Closes cells (fill cells) where
  length := length_fill cells
  nearest _ hrow _ h := fill_nearest hrow h
  dense h row _ := exists_nearest h row
  empty h _ hrow := fill_empty h hrow
  kept _ h := fill_kept h
  again := fill_fill cells

end Fill

end Carry

namespace Table

variable {t t' : Table α} {f : List (Option α) → List (Option α)} {name : String}
  {names : List String}

theorem updates_of_fixed
    (h : ∀ name ∈ names, ∃ xs, t.numeric name = .ok xs ∧ f xs = xs) :
    names.foldlM (fun t name => t.update name f) t = .ok t := by
  induction names with
  | nil => rfl
  | cons name names ih =>
    obtain ⟨xs, hx, hf⟩ := h name (by simp)
    exact foldlM_cons_ok_iff.2
      ⟨t, update_of_fixed hx hf, ih fun other hother => h other (by simp [hother])⟩

/-- Columns that are written one after the other, each once. -/
theorem updates_ok (hnames : names.Nodup)
    (h : names.foldlM (fun t name => t.update name f) t = .ok t') :
    (∀ name ∉ names, t'.column? name = t.column? name) ∧
      ∀ name ∈ names, ∃ xs, t.numeric name = .ok xs ∧ t'.numeric name = .ok (f xs) := by
  induction names generalizing t with
  | nil =>
    obtain rfl := pure_ok_iff.1 h
    exact ⟨fun _ _ => rfl, by simp⟩
  | cons name names ih =>
    obtain ⟨hout, hnames⟩ := List.nodup_cons.1 hnames
    obtain ⟨next, hnext, h⟩ := foldlM_cons_ok_iff.1 h
    obtain ⟨helse, hwritten⟩ := ih hnames h
    refine ⟨fun other hother => ?_, fun other hother => ?_⟩
    · rw [List.mem_cons, not_or] at hother
      rw [helse other hother.2, update_column?_other hnext hother.1]
    · by_cases heq : other = name
      · subst heq
        obtain ⟨xs, hx, hnew⟩ := update_numeric_self hnext
        exact ⟨xs, hx, (numeric_congr (helse other hout)).trans hnew⟩
      · obtain ⟨xs, hx, hnew⟩ := hwritten other ((List.mem_cons.1 hother).resolve_left heq)
        exact ⟨xs, (numeric_congr (update_column?_other hnext heq)).symm.trans hx, hnew⟩

end Table

namespace Pivot

variable [Scalar α] {p : Pivot} {t wide closed : Table α}

structure ClosesCovariates (p : Pivot) (wide closed : Table α) : Prop where
  rowCount : closed.rowCount = wide.rowCount
  names : closed.names = wide.names
  date : closed.column? p.date = wide.column? p.date
  target : ∀ slice, closed.column? (SeriesName.compose p.separator p.target slice) =
    wide.column? (SeriesName.compose p.separator p.target slice)
  covariate : ∀ name ∈ wide.names, name ≠ p.date →
    (∀ slice, name ≠ SeriesName.compose p.separator p.target slice) →
      ∃ xs ys, wide.numeric name = .ok xs ∧ closed.numeric name = .ok ys ∧ Carry.Closes xs ys
  again : p.closeCovariates closed = .ok closed

def covariates (p : Pivot) (wide : Table α) : List String :=
  wide.names.filter fun name =>
    name ≠ p.date && SeriesName.measure p.separator name ≠ p.target

theorem closeCovariates_eq (p : Pivot) (wide : Table α) : p.closeCovariates wide =
    (p.covariates wide).foldlM (fun t name => t.update name Carry.fill) wide := rfl

omit [Scalar α] in
theorem mem_covariates {name : String} : name ∈ p.covariates wide ↔
    name ∈ wide.names ∧ name ≠ p.date ∧ SeriesName.measure p.separator name ≠ p.target := by
  simp [covariates]

/-- The same, whatever it says of the gaps of covariates: they stay open, or they are closed. -/
def leaveOpen (p : Pivot) : Pivot := { p with fillCovariates := false }

def closeAll (p : Pivot) : Pivot := { p with fillCovariates := true }

theorem spread_closeAll (p : Pivot) (t : Table α) :
    p.closeAll.spread t = p.leaveOpen.spread t >>= p.closeCovariates := by
  rw [spread_eq, spread_eq]
  simp only [bind_assoc]
  rfl

theorem closeCovariates_closes (htarget : p.separator ∉ p.target.toList) (hw : wide.Wide p.date)
    (hcomposed : ∀ name ∈ wide.names, name ≠ p.date →
      ∃ m ∈ p.spreadMeasures t, ∃ s, name = SeriesName.compose p.separator m s)
    (h : p.closeCovariates wide = .ok closed) : p.ClosesCovariates wide closed := by
  obtain ⟨-, hrows, hnames⟩ := closedIf_keeps (p := p.closeAll) hw.wellFormed h
  obtain ⟨helse, hfilled⟩ := updates_ok (hw.wellFormed.nodup.filter _) h
  refine ⟨hrows, hnames, helse _ ?_, fun slice => helse _ ?_, fun name hname hne hother => ?_, ?_⟩
  · exact fun hmem => (mem_covariates.1 hmem).2.1 rfl
  · exact fun hmem =>
      (mem_covariates.1 hmem).2.2 ((SeriesName.measure_compose_iff htarget _ _).2 ⟨slice, rfl⟩)
  · obtain ⟨m, -, s, rfl⟩ := hcomposed name hname hne
    have hmem : SeriesName.compose p.separator m s ∈ p.covariates wide := by
      refine mem_covariates.2 ⟨hname, hne, fun hmeasure => ?_⟩
      obtain ⟨slice, heq⟩ := (SeriesName.measure_compose_iff htarget m s).1 hmeasure
      exact hother slice heq
    obtain ⟨xs, hx, hy⟩ := hfilled _ hmem
    exact ⟨xs, _, hx, hy, Carry.fill_closes xs⟩
  · rw [closeCovariates_eq]
    refine updates_of_fixed fun name hmem => ?_
    rw [covariates, hnames] at hmem
    obtain ⟨xs, -, hy⟩ := hfilled name hmem
    exact ⟨_, hy, Carry.fill_fill xs⟩

/-- Closing the gaps of the covariates changes neither the dates nor the series of the target, and
leaves a gap only where a column has no number at all. -/
theorem spread_closes_covariates (htarget : p.separator ∉ p.target.toList) (t : Table α) :
    ((∃ wide, p.leaveOpen.spread t = .ok wide) ↔ ∃ closed, p.closeAll.spread t = .ok closed) ∧
      ∀ wide closed, p.leaveOpen.spread t = .ok wide → p.closeAll.spread t = .ok closed →
        p.ClosesCovariates wide closed := by
  simp only [spread_closeAll, bind_ok_iff]
  refine ⟨⟨?_, ?_⟩, ?_⟩
  · rintro ⟨wide, hwide⟩
    obtain ⟨closed, hclosed, -⟩ := closeCovariates_total (spread_wide hwide).1
    exact ⟨closed, wide, hwide, hclosed⟩
  · rintro ⟨-, wide, hwide, -⟩
    exact ⟨wide, hwide⟩
  · rintro wide closed hwide ⟨wide', hwide', hclosed⟩
    obtain rfl := Except.ok.inj (hwide.symm.trans hwide')
    obtain ⟨hw, hcomposed⟩ := spread_wide hwide
    exact closeCovariates_closes htarget hw hcomposed hclosed

def fieldCatches : Pivot where
  date := "date"
  slice := none
  measures := none
  target := "adults"
  fillCovariates := false
  separator := '!'

def fieldRows : Table (Exact ℚ) where
  columns := [
    ⟨"date", .datetime ([1, 2, 3, 4].map fun day =>
      some (Calendar.Date.midnight ⟨2024, 6, day⟩))⟩,
    ⟨"traps", .numeric [some .nan, some (.number 4), none, some (.number 2)]⟩,
    ⟨"humidity", .numeric [none, some .nan, none, none]⟩,
    ⟨"adults", .numeric [none, some (.number 7), some .nan, none]⟩]
  rowCount := 4

/-- The traps are known from the second day on; of the humidity nothing is known. -/
theorem field_covariates_closed : '!' ∉ "adults".toList ∧ ∃ wide closed,
    fieldCatches.leaveOpen.spread fieldRows = .ok wide ∧
    fieldCatches.closeAll.spread fieldRows = .ok closed ∧
    fieldCatches.ClosesCovariates wide closed ∧
    closed.numeric "traps!ALL" =
      .ok [some (.number 4), some (.number 4), some (.number 4), some (.number 2)] ∧
    closed.numeric "humidity!ALL" = .ok [none, none, none, none] ∧
    closed.numeric "adults!ALL" = .ok [none, some (.number 7), some .nan, none] :=
  ⟨by decide, _, _, rfl, rfl, (spread_closes_covariates (by decide) fieldRows).2 _ _ rfl rfl,
    rfl, rfl, rfl⟩

end Pivot

end Infill
