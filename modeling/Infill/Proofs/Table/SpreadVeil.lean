import Mathlib.Data.List.Dedup
import Infill.Proofs.Table.Spread
import Infill.Proofs.Table.Veil

/-! What is hidden of a long table at its last dates is hidden of the spread table in its last rows,
in the series of the same measure, and nowhere else. An average at one date is taken over the rows
of that date alone, and the closing of gaps leaves the series of the target out. -/

namespace Infill

variable {α : Type}

open Calendar (DateTime)
open Table (column_ok_iff times_ok_iff)

/-- A row of one of the last `n` dates: less than `n` different dates come after its own. -/
def LateRow (n : Nat) (times : List (Option DateTime)) (row : Nat) : Prop :=
  ∃ time, times[row]? = some (some time) ∧
    (times.filterMap id).dedup.countP (time.before ·) < n

namespace Pivot

/-- The dates in front of the last `n` places of the axis have `n` dates behind them. -/
theorem countP_of_early {times : List (Option DateTime)} {n i : Nat} {time : DateTime}
    (hi : i + n < (timeAxis times).length) (htime : (timeAxis times)[i]? = some time) :
    n ≤ (times.filterMap id).dedup.countP (time.before ·) := by
  have hperm : (times.filterMap id).dedup.Perm (timeAxis times) := by
    rw [List.perm_ext_iff_of_nodup (List.nodup_dedup _) (timeAxis_nodup times)]
    intro x
    rw [List.mem_dedup, timeAxis, Axis.mem_ascending]
  obtain ⟨hlt, rfl⟩ := List.getElem?_eq_some_iff.1 htime
  have hlater : ∀ x ∈ (timeAxis times).drop (i + 1),
      ((timeAxis times)[i].before x) = true := by
    intro x hx
    obtain ⟨j, hj, rfl⟩ := List.getElem_of_mem hx
    rw [List.getElem_drop]
    exact List.pairwise_iff_getElem.1 (timeAxis_ascending times) i (i + 1 + j) hlt _ (by omega)
  calc n ≤ ((timeAxis times).drop (i + 1)).length := by
        rw [List.length_drop]
        omega
    _ = ((timeAxis times).drop (i + 1)).countP ((timeAxis times)[i].before ·) :=
        (List.countP_eq_length.2 hlater).symm
    _ ≤ (timeAxis times).countP ((timeAxis times)[i].before ·) :=
        (List.drop_sublist _ _).countP_le
    _ = (times.filterMap id).dedup.countP ((timeAxis times)[i].before ·) :=
        (hperm.countP_eq _).symm

variable [Scalar α]

def rowEntry (time : Option DateTime) (slice : Option String) (value : Option α) :
    Option (Entry α) := do
  return ⟨← time, ← slice, ← Scalar.observed value⟩

theorem entries_cons (time : Option DateTime) (times : List (Option DateTime))
    (slice : Option String) (slices : List (Option String)) (x : Option α)
    (xs : List (Option α)) : entries (time :: times) (slice :: slices) (x :: xs) =
      (rowEntry time slice x).toList ++ entries times slices xs := by
  unfold entries
  rw [List.zip_cons_cons, List.zip_cons_cons]
  cases he : rowEntry time slice x with
  | none => exact List.filterMap_cons_none he
  | some e => exact List.filterMap_cons_some he

/-- Of the entries with some times and slices, those of one row depend on the value of the row only
if its time and its slice are among them. -/
theorem rowEntry_filter_congr {keep : DateTime → String → Bool} {t : Option DateTime}
    {s : Option String} {x y : Option α}
    (h : ∀ time slice, t = some time → s = some slice → keep time slice = true → y = x) :
    (rowEntry t s y).toList.filter (fun e => keep e.time e.slice) =
      (rowEntry t s x).toList.filter (fun e => keep e.time e.slice) := by
  by_cases hrow : ∃ time slice, t = some time ∧ s = some slice ∧ keep time slice = true
  · obtain ⟨time, slice, ht, hs, hk⟩ := hrow
    rw [h time slice ht hs hk]
  · have hnone : ∀ z : Option α,
        (rowEntry t s z).toList.filter (fun e => keep e.time e.slice) = [] := by
      intro z
      rw [List.filter_eq_nil_iff]
      intro e he hk
      simp only [rowEntry, Option.mem_toList, Option.bind_eq_bind, Option.bind_eq_some_iff,
        Option.pure_def, Option.some.injEq] at he
      obtain ⟨time, rfl, slice, rfl, _, -, rfl⟩ := he
      exact hrow ⟨time, slice, rfl, rfl, hk⟩
    rw [hnone, hnone]

/-- Entries with some times and slices come from the rows with these. -/
theorem entries_filter_congr (keep : DateTime → String → Bool) {times : List (Option DateTime)}
    (slices : List (Option String)) {xs ys : List (Option α)} (hlength : ys.length = xs.length)
    (h : ∀ (i : Nat) time slice, times[i]? = some (some time) → slices[i]? = some (some slice) →
      keep time slice = true → ys[i]? = xs[i]?) :
    (entries times slices ys).filter (fun e => keep e.time e.slice) =
      (entries times slices xs).filter (fun e => keep e.time e.slice) := by
  induction times generalizing slices xs ys with
  | nil => rfl
  | cons t times ih =>
    match slices, xs, ys with
    | [], _, _ => rfl
    | _ :: _, [], [] => rfl
    | s :: slices, x :: xs, y :: ys =>
      have hhead : ∀ time slice, t = some time → s = some slice → keep time slice = true →
          y = x := by
        rintro time slice rfl rfl hk
        simpa using h 0 time slice rfl rfl hk
      rw [entries_cons, entries_cons, List.filter_append, List.filter_append,
        rowEntry_filter_congr hhead, ih slices (by simpa using hlength) fun i => h (i + 1)]

theorem average?_congr {times : List (Option DateTime)} {slices : List (Option String)}
    {slice : String} {time : DateTime} {xs ys : List (Option α)} (hlength : ys.length = xs.length)
    (h : ∀ i : Nat, times[i]? = some (some time) → ys[i]? = xs[i]?) :
    average? ((entries times slices ys).filter (·.slice = slice)) time =
      average? ((entries times slices xs).filter (·.slice = slice)) time := by
  have hsame := entries_filter_congr (fun time' _ => time' = time) slices hlength
    fun i time' _ hi _ hk => h i (by rwa [of_decide_eq_true hk] at hi)
  unfold average?
  rw [List.filter_comm, hsame, List.filter_comm]

def SeriesOf (p : Pivot) (measure name : String) : Prop :=
  ∃ slice, SeriesName.decompose? p.separator name = some (measure, slice)

def LatePlace (n : Nat) (times : List (Option DateTime)) (i : Nat) : Prop :=
  (timeAxis times).length ≤ i + n

theorem seriesOf_veiled {p : Pivot} {measure : String} (hm : p.separator ∉ measure.toList)
    {n : Nat} {times : List (Option DateTime)} {xs ys : List (Option α)}
    (h : EqOff (LateRow n times) xs ys) (slices : List (Option String)) :
    List.Forall₂ (Column.Veiled (p.SeriesOf measure) (LatePlace n times))
      (p.seriesOf times slices measure xs) (p.seriesOf times slices measure ys) := by
  unfold seriesOf
  rw [List.forall₂_map_left_iff, List.forall₂_map_right_iff, List.forall₂_same]
  intro slice _
  refine ⟨rfl, .numeric ⟨by simp, fun i hi => ?_⟩,
    fun hplain => absurd ⟨slice, SeriesName.decompose?_compose hm slice⟩ hplain⟩
  rw [List.getElem?_map, List.getElem?_map]
  cases htime : (timeAxis times)[i]? with
  | none => rfl
  | some time =>
    have hearly := countP_of_early (Nat.lt_of_not_le hi) htime
    rw [Option.map_some, Option.map_some, average?_congr h.length]
    intro row hrow
    refine h.shown row ?_
    rintro ⟨time', htime', hlate⟩
    obtain rfl := Option.some.inj (Option.some.inj (hrow.symm.trans htime'))
    omega

section Spread

variable {p : Pivot} {t t' : Table α} {n : Nat} {times : List (Option DateTime)}

omit [Scalar α] in
theorem isNumeric_veiled {veil : String → Prop} {hidden : Nat → Prop}
    (h : t.Veiled veil hidden t') (name : String) : isNumeric t' name = isNumeric t name := by
  rw [Bool.eq_iff_iff, isNumeric_iff, isNumeric_iff]
  have hagree := h.numeric name
  generalize t.numeric name = x, t'.numeric name = y at hagree
  cases hagree <;> simp

omit [Scalar α] in
theorem spreadMeasures_veiled {veil : String → Prop} {hidden : Nat → Prop}
    (h : t.Veiled veil hidden t') (p : Pivot) : p.spreadMeasures t' = p.spreadMeasures t := by
  unfold spreadMeasures
  rw [h.names_eq]
  simp only [isNumeric_veiled h]

theorem series_veiled (hsep : p.separator ∉ p.target.toList)
    (h : t.Veiled (· = p.target) (LateRow n times) t') (slices : List (Option String))
    (measure : String) :
    Agree (List.Forall₂ (Column.Veiled (p.SeriesOf p.target) (LatePlace n times)))
      ((t.numeric measure).map (p.seriesOf times slices measure))
      ((t'.numeric measure).map (p.seriesOf times slices measure)) := by
  by_cases hm : measure = p.target
  · rw [hm]
    exact (h.numeric p.target).map fun xs ys hxy => seriesOf_veiled hsep hxy slices
  · rw [Table.numeric, Table.numeric, h.column_plain hm]
    exact .of_eq (fun cs => List.forall₂_same.2 fun c _ => .refl _ _ c) rfl

theorem slicedColumns_veiled (hsep : p.separator ∉ p.target.toList) {slice : String}
    (hslice : slice ≠ p.target) {date : Column α} (hdate : date.cells = .datetime times)
    (h : t.Veiled (· = p.target) (LateRow n times) t') :
    Agree (List.Forall₂ (Column.Veiled (p.SeriesOf p.target) (LatePlace n times)))
      (p.slicedColumns t slice date) (p.slicedColumns t' slice date) := by
  rw [slicedColumns_eq, slicedColumns_eq, h.column_plain hslice, spreadMeasures_veiled h]
  refine Agree.bind_same fun read hread => ?_
  obtain rfl : read = times := Except.ok.inj (hread.symm.trans (times_ok_iff.2 hdate))
  refine Agree.bind_same fun keys _ => ?_
  refine (Agree.mapM fun m _ => series_veiled hsep h keys.cells.labels m).bind
    fun series series' _ _ hseries => ?_
  exact .ok (.cons (.refl _ _ _) (List.rel_flatten hseries))

theorem closedIf_veiled {hidden : Nat → Prop} (h : t.Veiled (p.SeriesOf p.target) hidden t') :
    Agree (Table.Veiled (p.SeriesOf p.target) hidden) (p.closedIf t) (p.closedIf t') := by
  unfold closedIf closeCovariates
  rw [h.names_eq]
  split_ifs
  · refine Agree.foldlM (Q := fun x y => x = y ∧ ¬ p.SeriesOf p.target x) ?_ ?_ h
    · refine List.forall₂_same.2 fun name hname => ⟨rfl, ?_⟩
      rintro ⟨slice, hs⟩
      simp [SeriesName.measure, hs] at hname
    · rintro s s' name _ ⟨rfl, hname⟩ hs
      exact hs.update_plain hname Carry.fill
  · exact .ok h

/-- Only the last rows of the target's series are touched by what is hidden. -/
theorem spread_veiled {slice : String} (hp : p.slice = some slice) (hslice : slice ≠ p.target)
    (hdate : p.date ≠ p.target) (hsep : p.separator ∉ p.target.toList) {date : Column α}
    (hcol : t.column? p.date = some date) (htimes : date.cells = .datetime times)
    (h : t.Veiled (· = p.target) (LateRow n times) t') :
    Agree (Table.Veiled (p.SeriesOf p.target) (LatePlace n times)) (p.spread t) (p.spread t') := by
  rw [spread_eq, spread_eq, h.column_plain hdate]
  refine Agree.bind_same fun c hc => ?_
  obtain rfl : c = date := Except.ok.inj (hc.symm.trans (column_ok_iff.2 hcol))
  have hcolumns : Agree (List.Forall₂ (Column.Veiled (p.SeriesOf p.target) (LatePlace n times)))
      (p.columnsFor t c) (p.columnsFor t' c) := by
    rw [columnsFor, columnsFor, hp]
    exact slicedColumns_veiled hsep hslice htimes h
  refine hcolumns.bind fun columns columns' _ _ hcd => ?_
  refine (Table.Veiled.ofColumns hcd).bind fun wide wide' _ _ hw => ?_
  exact closedIf_veiled hw

end Spread

end Pivot

end Infill
