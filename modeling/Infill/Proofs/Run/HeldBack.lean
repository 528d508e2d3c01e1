import Infill.Proofs.Run.Containment
import Infill.Proofs.Table.SpreadVeil

/-! Held-back values do not leak. Two tables that differ in the target of their last dates only are
spread into wide tables that differ in the last rows of the target's series only; blanking these
rows makes the wide tables equal, and the time-aware families read nothing else. -/

namespace Infill

variable {α : Type} [Scalar α]

open Table

omit [Scalar α] in
theorem blankLast_eq {n : Nat} {xs ys : List (Option α)}
    (h : EqOff (fun i => xs.length ≤ i + n) xs ys) : Run.blankLast n ys = Run.blankLast n xs := by
  have htake : ys.take (xs.length - n) = xs.take (xs.length - n) := by
    refine List.ext_getElem? fun i => ?_
    rw [List.getElem?_take, List.getElem?_take]
    split_ifs with hi
    · exact h.shown i (by omega)
    · rfl
  unfold Run.blankLast
  dsimp only
  rw [h.length, htake]

omit [Scalar α] in
theorem Column.Veiled.blanked {veil : String → Prop} {n rows : Nat} {c d : Column α}
    (h : c.Veiled veil (fun i => rows ≤ i + n) d) (hrows : c.length = rows) :
    Agree (fun xs ys => Run.blankLast n ys = Run.blankLast n xs) c.values d.values := by
  have hvalues := h.values
  generalize hx : c.values = x, d.values = y at hvalues
  cases hvalues with
  | error e => exact .error e
  | ok hxy =>
    rw [← hrows, Column.length, values_ok_iff.1 hx] at hxy
    exact .ok (blankLast_eq hxy)

namespace Table.Veiled

omit [Scalar α]

variable {n : Nat} {names : List String} {t t' : Table α}

/-- Blanking the last rows of a series lifts the veil from it. -/
theorem blank {name : String} (ht : t.WellFormed)
    (h : t.Veiled (· ∈ name :: names) (fun i => t.rowCount ≤ i + n) t') :
    Agree (Table.Veiled (· ∈ names) (fun i => t.rowCount ≤ i + n))
      (t.update name (Run.blankLast n)) (t'.update name (Run.blankLast n)) := by
  have key : ∀ {cs ds : List (Column α)},
      List.Forall₂ (Column.Veiled (· ∈ name :: names) fun i => t.rowCount ≤ i + n) cs ds →
      (cs.map (·.name)).Nodup → (∀ c ∈ cs, c.length = t.rowCount) →
      Agree (List.Forall₂ (Column.Veiled (· ∈ names) fun i => t.rowCount ≤ i + n))
        (updateFirst name (Run.blankLast n) cs) (updateFirst name (Run.blankLast n) ds) := by
    intro cs ds h hnodup hlength
    induction h with
    | nil => exact .error _
    | @cons c d cs ds hcd hrest ih =>
      rw [List.map_cons, List.nodup_cons] at hnodup
      have hother : ∀ e : Column α, e.name ≠ name → e.name ∈ name :: names → e.name ∈ names := by
        intro e he hmem
        exact (List.mem_cons.1 hmem).resolve_left he
      rw [updateFirst_cons, updateFirst_cons]
      by_cases hname : c.name = name
      · rw [if_pos hname, if_pos (hcd.name.trans hname)]
        -- no later column carries the name, so the veil over the rest is the smaller one
        have hrest' := veiled_columns_mono hrest fun e he hmem => hother e
          (fun heq => hnodup.1 (hname ▸ heq ▸ List.mem_map_of_mem he)) hmem
        refine (hcd.blanked (hlength c (by simp))).map fun xs ys hxy => ?_
        rw [hcd.name, hxy]
        exact .cons (.refl _ _ _) hrest'
      · rw [if_neg hname, if_neg (hcd.name ▸ hname)]
        refine (ih hnodup.2 fun e he => hlength e (by simp [he])).map fun _ _ hes => ?_
        exact .cons ⟨hcd.name, hcd.cells, fun hc => hcd.plain (mt (hother c hname) hc)⟩ hes
  exact (key h.columns ht.nodup ht.rectangular).map fun _ _ hes => ⟨h.rowCount, hes⟩

theorem blank_all (ht : t.WellFormed)
    (h : t.Veiled (· ∈ names) (fun i => t.rowCount ≤ i + n) t') :
    names.foldlM (fun t name => t.update name (Run.blankLast n)) t =
      names.foldlM (fun t name => t.update name (Run.blankLast n)) t' := by
  induction names generalizing t t' with
  | nil => rw [h.eq (by simp)]
  | cons name names ih =>
    rw [List.foldlM_cons, List.foldlM_cons]
    refine (Agree.bind (h.blank ht) fun s s' hs _ hss' => Agree.of_eq (fun _ => rfl) ?_).eq
    have hrows := update_rowCount hs
    refine ih ⟨update_names hs ▸ ht.nodup,
      rectangular_update (Run.length_blankLast n) ht.rectangular hs⟩ ?_
    rw [hrows]
    exact hss'

end Table.Veiled

namespace Run

def rowDates (t : Table α) (date : String × Calendar.Granularity) :
    List (Option Calendar.DateTime) :=
  match t.column date.1 >>= (·.parseDates date.2) >>= (·.times) with
  | .ok times => times
  | .error _ => []

section TwoRuns

variable {t t' : Table α} {r : Request α} {hidden : Nat → Prop}
  {date : String × Calendar.Granularity}

theorem withDates_veiled {veil : String → Prop} (hdate : ¬ veil date.1)
    (h : t.Veiled veil hidden t') :
    Agree (Table.Veiled veil hidden) (withDates t (some date)) (withDates t' (some date)) := by
  unfold withDates
  dsimp only
  rw [h.column_plain hdate]
  refine Agree.bind_same fun c _ => ?_
  refine Agree.bind_same fun d _ => ?_
  exact h.setColumn (.refl _ _ d)

theorem rowDates_of_withDates {parsed : Table α} (h : withDates t (some date) = .ok parsed) :
    ∃ c, parsed.column? date.1 = some c ∧ c.cells = .datetime (rowDates t date) := by
  simp only [withDates, bind_ok_iff] at h
  obtain ⟨c, hc, d, hd, h⟩ := h
  obtain ⟨hname, -, times, htimes⟩ := Column.parseDates_ok hd
  have hcname := (column?_some (column_ok_iff.1 hc)).2
  refine ⟨d, ?_, ?_⟩
  · rw [setColumn_column? h, if_pos (hname.trans hcname).symm]
  · rw [rowDates, hc]
    dsimp only [bind, Except.bind]
    rw [hd]
    dsimp only
    rw [times_ok_iff.2 htimes, htimes]

omit [Scalar α] in
theorem heldBack_veiled {n : Nat} (hn : r.nullifyLast = some n) {w w' : Table α}
    (hw : w.WellFormed) {p : Pivot} (hsep : p.separator = r.settings.separator)
    (h : w.Veiled (p.SeriesOf r.target) (fun i => w.rowCount ≤ i + n) w') :
    heldBack r w = heldBack r w' := by
  have hseries : SeriesName.ofMeasure r.settings.separator w' r.target =
      SeriesName.ofMeasure r.settings.separator w r.target :=
    SeriesName.ofMeasure_congr h.names_eq _ _
  unfold heldBack
  rw [hn]
  dsimp only
  rw [hseries]
  refine Table.Veiled.blank_all hw (h.mono ?_)
  rintro name hname ⟨slice, hs⟩
  exact SeriesName.mem_ofMeasure.2 ⟨hname, slice, hsep ▸ hs⟩

/-- The wide table is the same, for what differs is blanked. -/
theorem wideTable_veiled {slice : String} {n : Nat} (hroles : (rolesOf r).slice = some slice)
    (hn : r.nullifyLast = some n) (hdate : date.1 ≠ r.target) (hslice : slice ≠ r.target)
    (hsep : r.settings.separator ∉ r.target.toList) {times : List (Option Calendar.DateTime)}
    {c : Column α} (hc : t.column? date.1 = some c) (htimes : c.cells = .datetime times)
    (h : t.Veiled (· = r.target) (LateRow n times) t') :
    wideTable r t (rolesOf r) date.1 = wideTable r t' (rolesOf r) date.1 := by
  have hpivot : pivotOf r t' (rolesOf r) date.1 = pivotOf r t (rolesOf r) date.1 := by
    rw [pivotOf, h.names_eq, pivotOf]
  rw [wideTable_eq, wideTable_eq, hpivot]
  have hspread := Pivot.spread_veiled (p := pivotOf r t (rolesOf r) date.1) hroles hslice hdate hsep
    hc htimes h
  refine (hspread.bind fun w w' hw _ hww' => Agree.of_eq (fun _ => rfl) ?_).eq
  obtain ⟨hwf, hrows⟩ := Pivot.spread_shape hroles hc htimes hw
  refine heldBack_veiled hn hwf (p := pivotOf r t (rolesOf r) date.1) rfl ?_
  rw [hrows]
  exact hww'

theorem timePart_veiled {slice : String} {n : Nat} (hroles : rolesOf r = ⟨some date, some slice⟩)
    (hn : r.nullifyLast = some n) (hdate : date.1 ≠ r.target) (hslice : slice ≠ r.target)
    (hsep : r.settings.separator ∉ r.target.toList) {times : List (Option Calendar.DateTime)}
    {c : Column α} (hc : t.column? date.1 = some c) (htimes : c.cells = .datetime times)
    (h : t.Veiled (· = r.target) (LateRow n times) t') (fs : List Family) :
    timePart r t (rolesOf r) fs = timePart r t' (rolesOf r) fs := by
  have hwide := wideTable_veiled (by rw [hroles]) hn hdate hslice hsep hc htimes h
  have hdistinct : distinctSlices t' (some slice) = distinctSlices t (some slice) := by
    rw [distinctSlices, Option.bind_some, h.column?_plain hslice]
    rfl
  unfold timePart
  rw [hroles] at hwide ⊢
  dsimp only
  rw [hwide, hdistinct]

theorem rowPart_veiled {veil : String → Prop} (h : t.Veiled veil hidden t') {fs : List Family}
    (hfs : ∀ f ∈ fs, f.isTimeAware = true) : rowPart r t fs = rowPart r t' fs := by
  rw [rowPart_timeAware r t hfs, rowPart_timeAware r t' hfs]
  exact ((h.column r.target).bind fun _ _ _ _ _ => .ok rfl).eq

end TwoRuns

/-- What is held back of the target has no way into a report of time-aware families. -/
theorem held_back_unseen {t t' : Table α} {r : Request α} {date : String × Calendar.Granularity}
    {slice : String} {n : Nat} (hroles : rolesOf r = ⟨some date, some slice⟩)
    (hn : r.nullifyLast = some n) (hkeys : r.target ∉ r.keys)
    (hsep : r.settings.separator ∉ r.target.toList)
    (h : t.Veiled (· = r.target) (LateRow n (rowDates t date)) t') {roster : List String}
    (hroster : ∀ f ∈ families roster, f.isTimeAware = true) :
    predict t roster r = predict t' roster r := by
  have hdate : date.1 ≠ r.target := by
    rintro heq
    exact hkeys (heq ▸ KeyRoles.pick_date_mem (congrArg KeyRoles.date hroles))
  have hslice : slice ≠ r.target := by
    rintro rfl
    exact hkeys (KeyRoles.pick_slice_mem (congrArg KeyRoles.slice hroles)).1
  rw [predict_eq, predict_eq, h.rowCount]
  split_ifs
  · rfl
  have hread := withDates_veiled hdate h
  have hroles' : (rolesOf r).date = some date := by rw [hroles]
  rw [hroles']
  refine (hread.bind fun parsed parsed' hparsed _ hp => Agree.of_eq (fun _ => rfl) ?_).eq
  obtain ⟨c, hc, htimes⟩ := rowDates_of_withDates hparsed
  rw [timePart_veiled hroles hn hdate hslice hsep hc htimes hp, rowPart_veiled hp hroster]

def otherCaptures : Table Float where
  columns := captures.columns.take 3 ++
    [⟨"adults", .numeric [some 10.0, some 7.0, none, some 9.0, none, none]⟩]
  rowCount := 6

theorem otherCaptures_veiled : captures.Veiled (· = "adults")
    (LateRow 1 (rowDates captures ("year", .year))) otherCaptures := by
  refine ⟨rfl, .cons (.refl _ _ _) (.cons (.refl _ _ _) (.cons (.refl _ _ _)
    (.cons ⟨rfl, .numeric ⟨rfl, fun row hrow => ?_⟩, fun hplain => absurd rfl hplain⟩ .nil)))⟩
  have hlate : LateRow 1 (rowDates captures ("year", .year)) 4 :=
    ⟨⟨⟨2021, 1, 1⟩, 0, 0, 0⟩, rfl, by decide⟩
  match row with
  | 0 | 1 | 2 | 3 | 5 => rfl
  | 4 => exact absurd hlate hrow
  | _ + 6 => rfl

theorem captures_held_back_unseen :
    captures.Veiled (· = "adults") (LateRow 1 (rowDates captures ("year", .year))) otherCaptures ∧
    ∃ report, predict captures ["univariateTS", "multivariateTS", "timeRandomForest"]
        capturesRequest = .ok report ∧
      predict otherCaptures ["univariateTS", "multivariateTS", "timeRandomForest"]
        capturesRequest = .ok report := by
  obtain ⟨report, h⟩ := captures_run ["univariateTS", "multivariateTS", "timeRandomForest"]
  have hroles : rolesOf capturesRequest = ⟨some ("year", .year), some "province"⟩ := rfl
  have hfamilies : ∀ f ∈ families ["univariateTS", "multivariateTS", "timeRandomForest"],
      f.isTimeAware = true := by decide
  have hsame := held_back_unseen hroles rfl (by decide) (by decide) otherCaptures_veiled hfamilies
  exact ⟨otherCaptures_veiled, report, h, hsame ▸ h⟩

end Run

end Infill
