import Infill.Proofs.Distinct
import Infill.Proofs.Table.Lookup

/-! A table is rectangular when every column has as many cells as the table has rows. Building a
table out of columns refuses anything else, and keeps one column of each name. -/

namespace Infill.Table

variable {α : Type}

def Rectangular (t : Table α) : Prop := ∀ c ∈ t.columns, c.length = t.rowCount

theorem rectangular_numeric {t : Table α} (ht : t.Rectangular) {name : String}
    {xs : List (Option α)} (h : t.numeric name = .ok xs) : xs.length = t.rowCount := by
  obtain ⟨c, hc, hx⟩ := numeric_ok_iff.1 h
  rw [← ht c (column?_some hc).1, Column.length, hx]
  rfl

theorem rectangular_update {t t' : Table α} {name : String}
    {f : List (Option α) → List (Option α)} (hf : ∀ xs, (f xs).length = xs.length)
    (ht : t.Rectangular) (h : t.update name f = .ok t') : t'.Rectangular := by
  obtain ⟨before, c, after, xs, heq, -, -, hx, rfl⟩ := update_ok h
  intro d hd
  rcases List.mem_append.1 hd with hd | hd
  · exact ht d (by simp [heq, hd])
  rcases List.mem_cons.1 hd with rfl | hd
  · have := ht c (by simp [heq])
    rw [Column.length, hx] at this
    simpa [Column.length, Cells.length, hf] using this
  · exact ht d (by simp [heq, hd])

/-- The place of a column is that of the first column of its name, or the end. -/
theorem place_split (c : Column α) (columns : List (Column α)) :
    (∃ before d after, columns = before ++ d :: after ∧ d.name = c.name ∧
      (∀ e ∈ before, e.name ≠ c.name) ∧ place c columns = before ++ c :: after) ∨
    ((∀ e ∈ columns, e.name ≠ c.name) ∧ place c columns = columns ++ [c]) := by
  induction columns with
  | nil => exact Or.inr ⟨by simp, rfl⟩
  | cons d rest ih =>
    by_cases hd : d.name = c.name
    · exact Or.inl ⟨[], d, rest, rfl, hd, by simp, by simp [place, hd]⟩
    rcases ih with ⟨before, e, after, rfl, he, hb, hp⟩ | ⟨hne, hp⟩
    · refine Or.inl ⟨d :: before, e, after, rfl, he, ?_, by simp [place, hd, hp]⟩
      simpa using ⟨hd, hb⟩
    · exact Or.inr ⟨by simpa using ⟨hd, hne⟩, by simp [place, hd, hp]⟩

theorem place_of_split {before after : List (Column α)} {c d : Column α}
    (hb : ∀ e ∈ before, e.name ≠ c.name) (hd : d.name = c.name) :
    place d (before ++ c :: after) = before ++ d :: after := by
  induction before with
  | nil => simp [place, hd]
  | cons e before ih =>
    have he : e.name ≠ d.name := hd ▸ hb e (by simp)
    simp [place, he, ih fun x hx => hb x (by simp [hx])]

theorem place_eq_self {c : Column α} {columns : List (Column α)} (hc : c ∈ columns)
    (h : ∀ e ∈ columns, e.name = c.name → e = c) : place c columns = columns := by
  rcases place_split c columns with ⟨before, e, after, rfl, he, -, hp⟩ | ⟨hne, -⟩
  · obtain rfl := h e (by simp) he
    exact hp
  · exact absurd rfl (hne c hc)

theorem place_of_fresh {c : Column α} {columns : List (Column α)}
    (h : ∀ e ∈ columns, e.name ≠ c.name) : place c columns = columns ++ [c] := by
  rcases place_split c columns with ⟨before, e, after, rfl, he, -, -⟩ | ⟨-, hp⟩
  · exact absurd he (h e (by simp))
  · exact hp

theorem mem_place {c d : Column α} {columns : List (Column α)} (h : d ∈ place c columns) :
    d = c ∨ d ∈ columns := by
  rcases place_split c columns with ⟨before, e, after, rfl, -, -, hp⟩ | ⟨-, hp⟩
  · rw [hp] at h
    simp only [List.mem_append, List.mem_cons] at h ⊢
    tauto
  · rw [hp] at h
    simp only [List.mem_append, List.mem_singleton] at h
    tauto

theorem mem_place_self (c : Column α) (columns : List (Column α)) : c ∈ place c columns := by
  rcases place_split c columns with ⟨before, e, after, -, -, -, hp⟩ | ⟨-, hp⟩ <;> simp [hp]

theorem place_names (c : Column α) (columns : List (Column α)) :
    (place c columns).map (·.name) =
      columns.map (·.name) ++ if c.name ∈ columns.map (·.name) then [] else [c.name] := by
  rcases place_split c columns with ⟨before, d, after, rfl, hd, -, hp⟩ | ⟨hne, hp⟩
  · simp [hp, hd]
  · have : c.name ∉ columns.map (·.name) := by simpa using hne
    simp [hp, this]

theorem place_names_nodup {c : Column α} {columns : List (Column α)}
    (h : (columns.map (·.name)).Nodup) : ((place c columns).map (·.name)).Nodup := by
  rw [place_names]
  split_ifs with hc
  · simpa using h
  · rw [List.nodup_append]
    refine ⟨h, by simp, ?_⟩
    rintro a ha b hb rfl
    exact hc (List.mem_singleton.1 hb ▸ ha)

theorem setColumn_ok_iff {t t' : Table α} {c : Column α} :
    t.setColumn c = .ok t' ↔
      (t.columns = [] ∧ t' = ⟨[c], c.length⟩) ∨
      (t.columns ≠ [] ∧ c.length = t.rowCount ∧ t' = ⟨place c t.columns, t.rowCount⟩) := by
  unfold setColumn
  split_ifs with h1 h2
  · have h1 : t.columns = [] := by simpa using h1
    simp [h1, eq_comm]
  · have h1 : t.columns ≠ [] := by simpa using h1
    simp [h1, h2, eq_comm]
  · simp_all

/-- Written to a table without columns or not, a column replaces the one of its name. -/
theorem setColumn_columns {t t' : Table α} {c : Column α} (h : t.setColumn c = .ok t') :
    t'.columns = place c t.columns ∧ t'.rowCount = c.length := by
  rcases setColumn_ok_iff.1 h with ⟨he, rfl⟩ | ⟨-, hc, rfl⟩
  · simp [he, place]
  · simp [hc]

theorem setColumn_total {t : Table α} {c : Column α}
    (h : t.columns ≠ [] → c.length = t.rowCount) : ∃ t', t.setColumn c = .ok t' := by
  by_cases he : t.columns = []
  · exact ⟨_, setColumn_ok_iff.2 (Or.inl ⟨he, rfl⟩)⟩
  · exact ⟨_, setColumn_ok_iff.2 (Or.inr ⟨he, h he, rfl⟩)⟩

theorem setColumn_column? {t t' : Table α} {c : Column α} (h : t.setColumn c = .ok t')
    (name : String) : t'.column? name = if name = c.name then some c else t.column? name := by
  rw [column?, (setColumn_columns h).1, column?]
  rcases place_split c t.columns with ⟨before, d, after, heq, hd, hb, hp⟩ | ⟨hne, hp⟩
  · rw [hp, heq]
    split_ifs with hname
    · subst hname
      exact List.find?_eq_some_iff_append.2 ⟨by simp, before, after, rfl, by simpa using hb⟩
    · simp [List.find?_append, hd, Ne.symm hname]
  · rw [hp, List.find?_append]
    split_ifs with hname
    · subst hname
      have : t.columns.find? (·.name = c.name) = none := by simpa using hne
      simp [this]
    · simp [Ne.symm hname]

structure WellFormed (t : Table α) : Prop where
  nodup : t.names.Nodup
  rectangular : t.Rectangular

theorem wellFormed_empty : (empty : Table α).WellFormed :=
  ⟨by simp [names, empty], by simp [Rectangular, empty]⟩

theorem WellFormed.setColumn {t t' : Table α} {c : Column α} (ht : t.WellFormed)
    (h : t.setColumn c = .ok t') : t'.WellFormed := by
  obtain ⟨hcols, hrows⟩ := setColumn_columns h
  refine ⟨?_, ?_⟩
  · rw [names, hcols]
    exact place_names_nodup ht.nodup
  rcases setColumn_ok_iff.1 h with ⟨-, rfl⟩ | ⟨-, hc, rfl⟩
  · simp [Rectangular]
  · intro d hd
    rcases mem_place hd with rfl | hd
    · exact hc
    · exact ht.rectangular d hd

theorem wellFormed_ofColumns {columns : List (Column α)} {t : Table α}
    (h : ofColumns columns = .ok t) : t.WellFormed :=
  foldlM_keeps WellFormed (fun _ _ _ hs _ => hs.setColumn) wellFormed_empty h

theorem ofColumns_total {columns : List (Column α)} {rows : Nat}
    (h : ∀ c ∈ columns, c.length = rows) : ∃ t, ofColumns columns = .ok t := by
  have step : ∀ (s : Table α) (c : Column α), c ∈ columns → (s.columns ≠ [] → s.rowCount = rows) →
      ∃ s', s.setColumn c = .ok s' ∧ (s'.columns ≠ [] → s'.rowCount = rows) := by
    intro s c hc hs
    obtain ⟨s', hs'⟩ := setColumn_total (c := c) fun he => (h c hc).trans (hs he).symm
    exact ⟨s', hs', fun _ => (setColumn_columns hs').2.trans (h c hc)⟩
  obtain ⟨t, ht, -⟩ := foldlM_total (fun s => s.columns ≠ [] → s.rowCount = rows) step
    (s := empty) (by simp [empty])
  exact ⟨t, ht⟩

/-- Columns of different names and one length stand in the table as they are given. -/
theorem ofColumns_eq {c : Column α} {columns : List (Column α)}
    (hnames : ((c :: columns).map (·.name)).Nodup) (hlength : ∀ d ∈ columns, d.length = c.length) :
    ofColumns (c :: columns) = .ok ⟨c :: columns, c.length⟩ := by
  have key : ∀ placed : List (Column α), placed ≠ [] →
      ((placed ++ columns).map (·.name)).Nodup →
      columns.foldlM setColumn ⟨placed, c.length⟩ = .ok ⟨placed ++ columns, c.length⟩ := by
    clear hnames
    induction columns with
    | nil => simp [pure, Except.pure]
    | cons d rest ih =>
      intro placed hne hnames
      have hplace : place d placed = placed ++ [d] := by
        rw [List.map_append, List.nodup_append] at hnames
        exact place_of_fresh fun e he =>
          hnames.2.2 e.name (List.mem_map_of_mem he) d.name (by simp)
      have hset : setColumn ⟨placed, c.length⟩ d = .ok ⟨placed ++ [d], c.length⟩ :=
        setColumn_ok_iff.2 (Or.inr ⟨hne, hlength d (by simp), by rw [hplace]⟩)
      refine foldlM_cons_ok_iff.2 ⟨_, hset, ?_⟩
      rw [List.append_cons placed d rest] at hnames ⊢
      exact ih (fun e he => hlength e (by simp [he])) (placed ++ [d]) (by simp) hnames
  exact foldlM_cons_ok_iff.2 ⟨⟨[c], c.length⟩, rfl, key [c] (by simp) hnames⟩

theorem ofColumns_distinct {columns : List (Column α)} {rows : Nat} (hsome : columns ≠ [])
    (hnames : (columns.map (·.name)).Nodup) (hlength : ∀ c ∈ columns, c.length = rows) :
    ofColumns columns = .ok ⟨columns, rows⟩ := by
  obtain ⟨first, rest, rfl⟩ := List.exists_cons_of_ne_nil hsome
  have hfirst := hlength first List.mem_cons_self
  rw [ofColumns_eq hnames, hfirst]
  intro c hc
  rw [hlength c (List.mem_cons_of_mem _ hc), hfirst]

theorem ofColumns_rowCount {c : Column α} {columns : List (Column α)} {t : Table α}
    (h : ofColumns (c :: columns) = .ok t) : t.rowCount = c.length := by
  obtain ⟨s, hs, h⟩ := foldlM_cons_ok_iff.1 h
  have hstart : s.columns ≠ [] ∧ s.rowCount = c.length := by
    obtain ⟨hcols, hrows⟩ := setColumn_columns hs
    exact ⟨hcols ▸ List.ne_nil_of_mem (mem_place_self c _), hrows⟩
  refine (foldlM_keeps (fun s : Table α => s.columns ≠ [] ∧ s.rowCount = c.length) ?_ hstart h).2
  rintro s d - ⟨hne, hrows⟩ s' hs'
  rcases setColumn_ok_iff.1 hs' with ⟨he, -⟩ | ⟨-, -, rfl⟩
  · exact absurd he hne
  · exact ⟨List.ne_nil_of_mem (mem_place_self d _), hrows⟩

theorem mem_ofColumns {columns : List (Column α)} {t : Table α} (h : ofColumns columns = .ok t)
    {c : Column α} (hc : c ∈ t.columns) : c ∈ columns := by
  refine foldlM_keeps (fun s => ∀ c ∈ s.columns, c ∈ columns) ?_ (by simp [empty]) h c hc
  intro s d hd hs s' hs' e he
  rcases mem_place ((setColumn_columns hs').1 ▸ he) with rfl | he
  · exact hd
  · exact hs e he

/-- The names of a table are those of its columns, each where it came first. -/
theorem ofColumns_names_eq {columns : List (Column α)} {t : Table α}
    (h : ofColumns columns = .ok t) : t.names = (columns.map (·.name)).eraseDups := by
  induction columns using List.reverseRecOn generalizing t with
  | nil =>
    obtain rfl := pure_ok_iff.1 h
    rfl
  | append_singleton columns c ih =>
    rw [ofColumns, List.foldlM_append, bind_ok_iff] at h
    obtain ⟨s, hs, h⟩ := h
    obtain ⟨t', ht', h⟩ := foldlM_cons_ok_iff.1 h
    obtain rfl := pure_ok_iff.1 h
    have hold : s.columns.map (·.name) = (columns.map (·.name)).eraseDups := ih hs
    rw [names, (setColumn_columns ht').1, place_names, hold, List.map_append, List.map_singleton,
      eraseDups_concat]
    by_cases hc : c.name ∈ columns.map (·.name)
    · rw [if_pos (List.mem_eraseDups.2 hc), if_pos hc, List.append_nil]
    · rw [if_neg fun hin => hc (List.mem_eraseDups.1 hin), if_neg hc]

theorem ofColumns_names {columns : List (Column α)} {t : Table α} (h : ofColumns columns = .ok t)
    {name : String} : name ∈ t.names ↔ name ∈ columns.map (·.name) := by
  rw [ofColumns_names_eq h, List.mem_eraseDups]

theorem select_total {t : Table α} (ht : t.Rectangular) {names : List String}
    (h : ∀ name ∈ names, name ∈ t.names) : ∃ t', t.select names = .ok t' := by
  obtain ⟨columns, hcols⟩ : ∃ columns, names.mapM t.column = .ok columns := by
    refine mapM_total fun name hname => ?_
    obtain ⟨c, hc⟩ := exists_column (h name hname)
    exact ⟨c, column_ok_iff.2 hc⟩
  have hlength : ∀ c ∈ columns, c.length = t.rowCount := by
    intro c hc
    obtain ⟨name, -, hname⟩ := forall₂_mem_right (mapM_ok_iff.1 hcols) hc
    exact ht c (column?_some (column_ok_iff.1 hname)).1
  obtain ⟨t', ht'⟩ := ofColumns_total hlength
  exact ⟨t', bind_ok_iff.2 ⟨columns, hcols, ht'⟩⟩

/-- A selected column reads as it does in the whole table, however often it is named. -/
theorem select_column? {t t' : Table α} {names : List String} (h : t.select names = .ok t')
    {name : String} (hname : name ∈ names) : t'.column? name = t.column? name := by
  obtain ⟨columns, hcols, h⟩ := bind_ok_iff.1 h
  have hread : ∀ c ∈ columns, t.column? c.name = some c := by
    intro c hc
    obtain ⟨m, -, hm⟩ := forall₂_mem_right (mapM_ok_iff.1 hcols) hc
    have hm := column_ok_iff.1 hm
    rw [(column?_some hm).2]
    exact hm
  have hsub : ∀ name c, t'.column? name = some c → t.column? name = some c := by
    refine foldlM_keeps (fun s => ∀ name c, s.column? name = some c → t.column? name = some c)
      ?_ (by simp [column?, empty]) h
    intro s d hd hs s' hs' name c hc
    rw [setColumn_column? hs'] at hc
    split_ifs at hc with hdn
    · obtain rfl := Option.some.inj hc
      rw [hdn]
      exact hread d hd
    · exact hs name c hc
  obtain ⟨c, hc, hcol⟩ := forall₂_mem_left (mapM_ok_iff.1 hcols) hname
  have hc' : name ∈ t'.names := by
    rw [ofColumns_names h, ← (column?_some (column_ok_iff.1 hcol)).2]
    exact List.mem_map_of_mem hc
  obtain ⟨d, hd⟩ := exists_column hc'
  rw [hd, hsub name d hd]

end Infill.Table
