import Mathlib.Data.List.Flatten
import Mathlib.Data.List.Pairwise
import Infill.Impute.Gap

/-! The runs of missing rows. Read one behind the other they are the missing rows, each once and in
ascending order, and none of them is empty. They do not touch each other, so that they are just the
blocks of missing rows that cannot be made longer, and each of them knows how many rows in front of it
are there. -/

namespace Infill.Gap

def missingFrom (row : Nat) : List Bool → List Nat
  | [] => []
  | false :: rest => missingFrom (row + 1) rest
  | true :: rest => row :: missingFrom (row + 1) rest

theorem mem_missingFrom {row i : Nat} {missing : List Bool} :
    i ∈ missingFrom row missing ↔ row ≤ i ∧ missing[i - row]? = some true := by
  induction missing generalizing row with
  | nil => simp [missingFrom]
  | cons gone rest ih =>
    have htail : row + 1 ≤ i → (gone :: rest)[i - row]? = rest[i - (row + 1)]? := by
      intro hi
      obtain ⟨k, rfl⟩ := Nat.exists_eq_add_of_le hi
      have : row + 1 + k - row = k + 1 := by omega
      simp [this]
    rcases Nat.lt_trichotomy i row with hlt | rfl | hgt
    · have hne : i ≠ row := Nat.ne_of_lt hlt
      have hlater : ¬ row + 1 ≤ i := by omega
      cases gone <;> simp [missingFrom, ih, hne, hlater, Nat.not_le_of_lt hlt]
    · have hself : ¬ i + 1 ≤ i := Nat.not_succ_le_self i
      cases gone <;> simp [missingFrom, ih, hself]
    · have hne : i ≠ row := Nat.ne_of_gt hgt
      cases gone <;> simp [missingFrom, ih, htail hgt, hne, Nat.le_of_lt hgt, Nat.succ_le_of_lt hgt]

theorem missingFrom_ascending (row : Nat) (missing : List Bool) :
    (missingFrom row missing).Pairwise (· < ·) := by
  induction missing generalizing row with
  | nil => exact .nil
  | cons gone rest ih =>
    cases gone with
    | false => exact ih (row + 1)
    | true =>
      refine .cons (fun i hi => ?_) (ih (row + 1))
      exact (mem_missingFrom.1 hi).1

theorem rows_prepend (history row : Nat) (gaps : List Gap) :
    (prepend history row gaps).flatMap rows = row :: gaps.flatMap rows := by
  cases gaps with
  | nil => rfl
  | cons g rest =>
    unfold prepend
    dsimp only
    split
    · rename_i hjoin
      simp [rows, hjoin, List.range'_succ]
    · simp [rows]

/-- The runs cover the missing rows and nothing else. -/
theorem rows_runsFrom (history row : Nat) (missing : List Bool) :
    (runsFrom history row missing).flatMap rows = missingFrom row missing := by
  induction missing generalizing history row with
  | nil => rfl
  | cons gone rest ih =>
    cases gone with
    | false => exact ih (history + 1) (row + 1)
    | true => rw [runsFrom, rows_prepend, ih, missingFrom]

theorem length_pos_of_mem_prepend {history row : Nat} {gaps : List Gap}
    (h : ∀ g ∈ gaps, 0 < g.length) : ∀ g ∈ prepend history row gaps, 0 < g.length := by
  cases gaps with
  | nil => simp [prepend]
  | cons g rest =>
    rw [List.forall_mem_cons] at h
    unfold prepend
    dsimp only
    split
    · exact List.forall_mem_cons.2 ⟨Nat.succ_pos _, h.2⟩
    · exact List.forall_mem_cons.2 ⟨Nat.one_pos, List.forall_mem_cons.2 h⟩

theorem length_pos_of_mem_runsFrom {history row : Nat} {missing : List Bool} :
    ∀ g ∈ runsFrom history row missing, 0 < g.length := by
  induction missing generalizing history row with
  | nil => simp [runsFrom]
  | cons gone rest ih =>
    cases gone with
    | false => exact ih
    | true => exact length_pos_of_mem_prepend ih

theorem first_mem_rows {g : Gap} (h : 0 < g.length) : g.first ∈ g.rows :=
  List.mem_range'_1.2 ⟨Nat.le_refl _, Nat.lt_add_of_pos_right h⟩

theorem mem_runs_rows {missing : List Bool} {row : Nat} :
    (∃ g ∈ runs missing, row ∈ g.rows) ↔ missing[row]? = some true := by
  have h : row ∈ missingFrom 0 missing ↔ 0 ≤ row ∧ missing[row - 0]? = some true :=
    mem_missingFrom
  rw [← rows_runsFrom 0 0, List.mem_flatMap] at h
  simpa [runs] using h

theorem runs_ascending (missing : List Bool) :
    (runs missing).Pairwise fun g g' => ∀ i ∈ g.rows, ∀ j ∈ g'.rows, i < j := by
  have h := missingFrom_ascending 0 missing
  rw [← rows_runsFrom 0 0] at h
  exact (List.pairwise_flatMap.1 h).2

theorem le_first_of_mem_runsFrom {history row : Nat} {missing : List Bool} {g : Gap}
    (h : g ∈ runsFrom history row missing) : row ≤ g.first := by
  have hrow : g.first ∈ (runsFrom history row missing).flatMap rows :=
    List.mem_flatMap.2 ⟨g, h, first_mem_rows (length_pos_of_mem_runsFrom g h)⟩
  rw [rows_runsFrom] at hrow
  exact (mem_missingFrom.1 hrow).1

theorem prepend_separated {history row : Nat} {gaps : List Gap}
    (hgaps : gaps.Pairwise fun g g' => g.first + g.length < g'.first)
    (hfirst : ∀ g ∈ gaps, row + 1 ≤ g.first) :
    (prepend history row gaps).Pairwise fun g g' => g.first + g.length < g'.first := by
  cases gaps with
  | nil => exact List.pairwise_singleton _ _
  | cons g gaps =>
    obtain ⟨hg, hgaps⟩ := List.pairwise_cons.1 hgaps
    have hrow := hfirst g List.mem_cons_self
    have hlater : ∀ g' ∈ gaps, row + 1 + g.length < g'.first := fun g' hg' =>
      Nat.lt_of_le_of_lt (Nat.add_le_add_right hrow g.length) (hg g' hg')
    unfold prepend
    dsimp only
    split
    · refine .cons (fun g' hg' => ?_) hgaps
      have := hlater g' hg'
      dsimp only
      omega
    · refine .cons (List.forall_mem_cons.2 ⟨?_, fun g' hg' => ?_⟩) (.cons hg hgaps)
      · dsimp only
        omega
      · have := hlater g' hg'
        dsimp only
        omega

/-- Between two runs there is a row that is not missing. -/
theorem runsFrom_separated (history row : Nat) (missing : List Bool) :
    (runsFrom history row missing).Pairwise fun g g' => g.first + g.length < g'.first := by
  induction missing generalizing history row with
  | nil => exact .nil
  | cons gone rest ih =>
    cases gone with
    | false => exact ih (history + 1) (row + 1)
    | true => exact prepend_separated (ih history (row + 1)) fun g => le_first_of_mem_runsFrom

theorem runs_separated (missing : List Bool) :
    (runs missing).Pairwise fun g g' => g.first + g.length < g'.first :=
  runsFrom_separated 0 0 missing

theorem mem_prepend {history row : Nat} {gaps : List Gap} {g : Gap}
    (h : g ∈ prepend history row gaps) : (∃ length, g = ⟨history, row, length⟩) ∨ g ∈ gaps := by
  cases gaps with
  | nil => exact .inl ⟨1, List.mem_singleton.1 h⟩
  | cons g' gaps =>
    unfold prepend at h
    dsimp only at h
    split at h
    · exact (List.mem_cons.1 h).imp (fun h => ⟨_, h⟩) (List.mem_cons_of_mem _)
    · exact (List.mem_cons.1 h).imp_left fun h => ⟨_, h⟩

/-- The history of a run is the number of rows in front of it that are not missing. -/
theorem history_of_mem_runsFrom {history row : Nat} {missing : List Bool} {g : Gap}
    (h : g ∈ runsFrom history row missing) :
    g.history = history + (missing.take (g.first - row)).count false := by
  induction missing generalizing history row with
  | nil => cases h
  | cons gone rest ih =>
    have hlater : row + 1 ≤ g.first → (gone :: rest).take (g.first - row) =
        gone :: rest.take (g.first - (row + 1)) := by
      intro hrow
      rw [← List.take_succ_cons]
      congr 1
      omega
    cases gone with
    | false =>
      rw [runsFrom] at h
      rw [ih h, hlater (le_first_of_mem_runsFrom h), List.count_cons_self]
      omega
    | true =>
      rcases mem_prepend h with ⟨length, rfl⟩ | h
      · simp
      · rw [ih h, hlater (le_first_of_mem_runsFrom h), List.count_cons_of_ne (by decide)]

/-- The rows from `first` up to `next` are missing, and the rows next to them, if any, are not. -/
structure IsBlock (missing : List Bool) (first next : Nat) : Prop where
  first_lt : first < next
  inside : ∀ row, first ≤ row → row < next → missing[row]? = some true
  starts : first = 0 ∨ missing[first - 1]? = some false
  ends : missing[next]? ≠ some true

namespace IsBlock

variable {missing : List Bool} {first next : Nat}

/-- In front of a block there is nothing, or a row that is not missing. -/
theorem count_eq_zero_iff (h : IsBlock missing first next) :
    (missing.take first).count false = 0 ↔ first = 0 := by
  refine ⟨fun hcount => h.starts.resolve_right fun hfalse => ?_, by rintro rfl; rfl⟩
  have hfirst : first ≠ 0 := by
    rintro rfl
    simp [h.inside 0 (Nat.le_refl 0) h.first_lt] at hfalse
  refine List.count_eq_zero.1 hcount (List.mem_of_getElem? (i := first - 1) ?_)
  rw [List.getElem?_take_of_lt (by omega), hfalse]

theorem first_le {first' next' row : Nat} (h : IsBlock missing first next)
    (h' : IsBlock missing first' next') (hrow : row < next) (hrow' : first' ≤ row) :
    first' ≤ first := by
  refine Nat.le_of_not_lt fun hlt => ?_
  have hbefore := h'.starts.resolve_left (by omega)
  simp [h.inside (first' - 1) (by omega) (by omega)] at hbefore

theorem le_next {first' next' row : Nat} (h : IsBlock missing first next)
    (h' : IsBlock missing first' next') (hrow : first ≤ row) (hrow' : row < next') :
    next ≤ next' :=
  Nat.le_of_not_lt fun hlt => h'.ends (h.inside next' (by omega) hlt)

theorem eq_of_mem {first' next' row : Nat} (h : IsBlock missing first next)
    (h' : IsBlock missing first' next') (hrow : first ≤ row ∧ row < next)
    (hrow' : first' ≤ row ∧ row < next') : first = first' ∧ next = next' :=
  ⟨Nat.le_antisymm (h'.first_le h hrow'.2 hrow.1) (h.first_le h' hrow.2 hrow'.1),
    Nat.le_antisymm (h.le_next h' hrow.1 hrow'.2) (h'.le_next h hrow'.1 hrow.2)⟩

end IsBlock

theorem mem_rows {g : Gap} {row : Nat} :
    row ∈ g.rows ↔ g.first ≤ row ∧ row < g.first + g.length :=
  List.mem_range'_1

theorem runs_apart {missing : List Bool} {g g' : Gap} (h : g ∈ runs missing)
    (h' : g' ∈ runs missing) (hne : g ≠ g') :
    g.first + g.length < g'.first ∨ g'.first + g'.length < g.first := by
  have hapart : (runs missing).Pairwise fun g g' =>
      g.first + g.length < g'.first ∨ g'.first + g'.length < g.first :=
    (runs_separated missing).imp .inl
  have : Std.Symm fun g g' : Gap =>
      g.first + g.length < g'.first ∨ g'.first + g'.length < g.first := ⟨fun _ _ => Or.symm⟩
  exact hapart.forall h h' hne

/-- A missing row outside of a run is not next to it either: it lies in another run. -/
theorem apart_of_mem_runs {missing : List Bool} {g : Gap} (h : g ∈ runs missing) {row : Nat}
    (hrow : missing[row]? = some true) (hout : row ∉ g.rows) :
    row + 1 < g.first ∨ g.first + g.length < row := by
  obtain ⟨g', h', hrow'⟩ := mem_runs_rows.2 hrow
  have hapart := runs_apart h h' fun heq => hout (heq ▸ hrow')
  rw [mem_rows] at hrow'
  omega

theorem isBlock_of_mem_runs {missing : List Bool} {g : Gap} (h : g ∈ runs missing) :
    IsBlock missing g.first (g.first + g.length) where
  first_lt := Nat.lt_add_of_pos_right (length_pos_of_mem_runsFrom g h)
  inside row hrow hlt := mem_runs_rows.1 ⟨g, h, mem_rows.2 ⟨hrow, hlt⟩⟩
  starts := by
    refine Nat.eq_zero_or_pos g.first |>.imp_right fun hpos => ?_
    have hfirst := mem_runs_rows.1 ⟨g, h, first_mem_rows (length_pos_of_mem_runsFrom g h)⟩
    have hlt : g.first - 1 < missing.length := by
      have := (List.getElem?_eq_some_iff.1 hfirst).1
      omega
    rw [List.getElem?_eq_getElem hlt, Option.some_inj, ← Bool.not_eq_true]
    intro hbefore
    have := apart_of_mem_runs h (List.getElem?_eq_some_iff.2 ⟨hlt, hbefore⟩)
      (by rw [mem_rows]; omega)
    omega
  ends := by
    intro hafter
    have := apart_of_mem_runs h hafter (by rw [mem_rows]; omega)
    omega

theorem last_le_of_mem_runs {missing : List Bool} {g : Gap} (h : g ∈ runs missing) :
    g.first + g.length ≤ missing.length := by
  have hpos := length_pos_of_mem_runsFrom g h
  have hlast := (isBlock_of_mem_runs h).inside (g.first + g.length - 1) (by omega) (by omega)
  have := (List.getElem?_eq_some_iff.1 hlast).1
  omega

theorem exists_run_of_isBlock {missing : List Bool} {first next : Nat}
    (h : IsBlock missing first next) :
    ∃ g ∈ runs missing, g.first = first ∧ g.first + g.length = next := by
  obtain ⟨g, hg, hrow⟩ := mem_runs_rows.2 (h.inside first (Nat.le_refl _) h.first_lt)
  exact ⟨g, hg, (isBlock_of_mem_runs hg).eq_of_mem h (mem_rows.1 hrow)
    ⟨Nat.le_refl _, h.first_lt⟩⟩

end Infill.Gap
