import Infill.Prepare
import Infill.Proofs.Run.RowOrder

/-! Tables stay well formed. Whatever is done to a table, one operation after the other, its columns
keep one length and their names stay apart; what an operation leaves behind that fails is a table of
the same kind, and after a column that was refused it is the table from before. -/

namespace Infill

variable {α : Type}

namespace Table

/-- Writes a column in place: a table without columns takes its length over, any other asks for the
length before it writes. -/
def assign (c : Column α) : EStateM Error (Table α) Unit := do
  let t ← get
  if t.columns.isEmpty then
    set { t with rowCount := c.length }
  else if c.length ≠ t.rowCount then
    throw (.dimensionMismatch t.rowCount c.length)
  modify fun t => { t with columns := place c t.columns }

def left {ε : Type} : EStateM.Result ε (Table α) Unit → Table α
  | .ok _ t => t
  | .error _ t => t

/-- In place or not, the table with the column is the same, and a refused column leaves no trace. -/
theorem assign_run (c : Column α) (t : Table α) : assign c t = match t.setColumn c with
    | .ok t' => .ok () t'
    | .error e => .error e t := by
  obtain ⟨columns, rows⟩ := t
  unfold setColumn
  change (assign c).run _ = _
  cases columns with
  | nil => rfl
  | cons d rest =>
    by_cases hlength : c.length = rows <;> simp [assign, hlength]

theorem assign_error {c : Column α} {t t' : Table α} {e : Error}
    (h : assign c t = .error e t') : t' = t := by
  rw [assign_run] at h
  cases hset : t.setColumn c with
  | ok t'' => simp [hset] at h
  | error e' =>
    rw [hset] at h
    exact (EStateM.Result.error.inj h).2.symm

end Table

variable [Scalar α]

/-- What one operation makes of a table, or leaves of it if it fails half way. -/
inductive Table.Becomes (t : Table α) : Table α → Prop
  | assign (c : Column α) : t.Becomes (left (Table.assign c t))
  | select {names : List String} {t' : Table α} (h : t.select names = .ok t') : t.Becomes t'
  | takeRows {rows : List Nat} (h : ∀ row ∈ rows, row < t.rowCount) : t.Becomes (t.takeRows rows)
  | setCell {name : String} {row : Nat} {value : Option α} {t' : Table α}
      (h : t.setCell name row value = .ok t') : t.Becomes t'
  | spread {p : Pivot} {t' : Table α} (h : p.spread t = .ok t') : t.Becomes t'
  | gather {separator : Char} {date target : String} {slice : Option String} {t' : Table α}
      (h : Pivot.gather separator t date slice target = .ok t') : t.Becomes t'
  | sliceFrame {separator : Char} {date series : String} {t' : Table α}
      (h : SeriesName.sliceFrame separator t date series = .ok t') : t.Becomes t'
  | nullifyLast (separator : Char) (target : String) (n : Nat) :
      t.Becomes (Run.nullifyLastRows separator target n t).1
  | normalize {keys : List String} {target : String} {prepared : Prepared α}
      (h : Prepare.normalize t keys target = .ok prepared) : t.Becomes prepared.table
  | nullifyTail {keys : List String} {target : String} {share : α} {settings : Settings α}
      {t' : Table α} (h : Prepare.nullifyTail t keys target share settings = .ok t') : t.Becomes t'
  | fillSeries {target : String} {testSize accuracySize count : Nat} {settings : Settings α}
      {i : Imputation α}
      (h : SeriesFill.Single.train t target testSize accuracySize settings = .ok (i, count)) :
      t.Becomes i.table
  | fillJointly {measure : String} {testSize accuracySize : Nat} {settings : Settings α}
      {i : Imputation α} {dims : SeriesFill.Joint.Dimensions}
      (h : SeriesFill.Joint.train t measure testSize accuracySize settings = .ok (i, dims)) :
      t.Becomes i.table
  | fillRows {target : String} {kind : TreeKind} {testSize accuracySize : Nat}
      {settings : Settings α} {i : Imputation α}
      (h : TreeFill.train t target kind testSize accuracySize settings = .ok i) :
      t.Becomes i.table

/-- The tables that come out of a sequence of operations. -/
inductive Table.Reachable : Table α → Prop
  | empty : Reachable Table.empty
  | ofColumns {columns : List (Column α)} {t : Table α} (h : Table.ofColumns columns = .ok t) :
      Reachable t
  | after {t t' : Table α} (h : t.Reachable) (step : t.Becomes t') : Reachable t'

namespace Table.WellFormed

variable {t t' : Table α}

omit [Scalar α] in
theorem assign (ht : t.WellFormed) (c : Column α) : (left (Table.assign c t)).WellFormed := by
  rw [assign_run]
  cases hset : t.setColumn c with
  | ok t' => exact ht.setColumn hset
  | error e => exact ht

omit [Scalar α] in
theorem takeRows (ht : t.WellFormed) (rows : List Nat) : (t.takeRows rows).WellFormed :=
  ⟨t.names_takeRows rows ▸ ht.nodup, t.rectangular_takeRows rows⟩

omit [Scalar α] in
/-- Writing within a column keeps the shape if it keeps the number of its cells. -/
theorem update (ht : t.WellFormed) {name : String} {f : List (Option α) → List (Option α)}
    (hf : ∀ xs, (f xs).length = xs.length) (h : t.update name f = .ok t') : t'.WellFormed :=
  ⟨update_names h ▸ ht.nodup, rectangular_update hf ht.rectangular h⟩

theorem fills (ht : t.WellFormed) {writable : String → Prop} (h : t.Fills writable t') :
    t'.WellFormed :=
  ⟨h.names_eq ▸ ht.nodup, h.rectangular ht.rectangular⟩

theorem spread (p : Pivot) (h : p.spread t = .ok t') : t'.WellFormed := by
  simp only [Pivot.spread_eq, bind_ok_iff] at h
  obtain ⟨-, -, columns, -, wide, hwide, hclosed⟩ := h
  exact (Pivot.closedIf_keeps (wellFormed_ofColumns hwide) hclosed).1

omit [Scalar α] in
theorem gather (ht : t.WellFormed) {separator : Char} {date target : String}
    {slice : Option String} (h : Pivot.gather separator t date slice target = .ok t') :
    t'.WellFormed := by
  cases slice with
  | none => exact Except.ok.inj h ▸ ht
  | some slice =>
    obtain ⟨dates, -, -, values, -, labelled, hlabelled, hlong⟩ := Pivot.gather_ok_iff.1 h
    have hdates : (Table.mk [dates] dates.length).WellFormed := ⟨by simp [names], by
      simp [Rectangular]⟩
    exact ((hdates.takeRows _).setColumn hlabelled).setColumn hlong

omit [Scalar α] in
theorem blankSeries (n : Nat) (series : List String) (ht : t.WellFormed) :
    (Run.blankSeries n series t).1.WellFormed := by
  induction series generalizing t with
  | nil => exact ht
  | cons name rest ih =>
    rw [Run.blankSeries]
    cases hu : t.update name (Run.blankLast n) with
    | ok t' => exact ih (ht.update (Run.length_blankLast n) hu)
    | error e => exact ht

theorem normalize {keys : List String} {target : String} {prepared : Prepared α}
    (h : Prepare.normalize t keys target = .ok prepared) : prepared.table.WellFormed := by
  unfold Prepare.normalize at h
  rw [check_ok_iff] at h
  simp only [bind_ok_iff, pure_ok_iff] at h
  obtain ⟨-, lowered, hlowered, rfl⟩ := h
  exact (wellFormed_ofColumns hlowered).takeRows _

theorem nullifyTail (ht : t.WellFormed) {keys : List String} {target : String} {share : α}
    {settings : Settings α} (h : Prepare.nullifyTail t keys target share settings = .ok t') :
    t'.WellFormed := by
  unfold Prepare.nullifyTail at h
  split_ifs at h
  · exact pure_ok_iff.1 h ▸ ht
  · split at h
    · exact absurd h throw_ne_ok
    · obtain ⟨keys, -, h⟩ := bind_ok_iff.1 h
      refine ht.update (fun xs => ?_) h
      simp [Prepare.blankKeys]

theorem becomes (ht : t.WellFormed) (h : t.Becomes t') : t'.WellFormed := by
  cases h with
  | assign c => exact ht.assign c
  | select h =>
    obtain ⟨columns, -, h⟩ := bind_ok_iff.1 h
    exact wellFormed_ofColumns h
  | takeRows => exact ht.takeRows _
  | setCell h => exact ht.update (fun xs => List.length_set) h
  | spread h => exact spread _ h
  | gather h => exact ht.gather h
  | sliceFrame h =>
    obtain ⟨-, slice, -, h⟩ := SeriesName.sliceFrame_ok_iff.1 h
    obtain ⟨columns, -, h⟩ := bind_ok_iff.1 h
    exact wellFormed_ofColumns h
  | nullifyLast => exact ht.blankSeries _ _
  | normalize h => exact normalize h
  | nullifyTail h => exact ht.nullifyTail h
  | fillSeries h => exact ht.fills (SeriesFill.Single.train_writes h).table
  | fillJointly h => exact ht.fills (SeriesFill.Joint.train_writes h).table
  | fillRows h => exact ht.fills (TreeFill.train_writes h).table

end Table.WellFormed

/-- Whatever has been done to a table, its columns have a cell for every row and names of their own,
and a column that it refuses leaves it as it is. -/
theorem Table.reachable_wellFormed {t : Table α} (h : t.Reachable) :
    t.names.Nodup ∧ (∀ c ∈ t.columns, c.length = t.rowCount) ∧
      ∀ c e t', assign c t = .error e t' → t' = t := by
  have hwf : t.WellFormed := by
    induction h with
    | empty => exact wellFormed_empty
    | ofColumns h => exact wellFormed_ofColumns h
    | after _ step ih => exact ih.becomes step
  exact ⟨hwf.nodup, hwf.rectangular, fun c e t' => assign_error⟩

/-- The sightings are spread by province and the last date of the adults is blanked; a column of one
row is refused. -/
theorem Pivot.sightings_blanked : (∃ wide, sightings.spread sightingRows = .ok wide ∧
      (Run.nullifyLastRows '!' "adults" 1 wide).1.names.Nodup ∧
      ∀ c ∈ (Run.nullifyLastRows '!' "adults" 1 wide).1.columns,
        c.length = (Run.nullifyLastRows '!' "adults" 1 wide).1.rowCount) ∧
    ∃ t, Table.assign ⟨"humidity", .numeric [none]⟩ sightingRows =
      .error (.dimensionMismatch 4 1) t ∧ t = sightingRows := by
  have hrows : Table.Reachable sightingRows :=
    .ofColumns (show Table.ofColumns sightingRows.columns = .ok sightingRows by rfl)
  constructor
  · obtain ⟨wide, hwide, -⟩ := spread_total sightings_fit
    have hblanked : Table.Reachable (Run.nullifyLastRows '!' "adults" 1 wide).1 :=
      (hrows.after (.spread hwide)).after (.nullifyLast '!' "adults" 1)
    obtain ⟨hnames, hrectangular, -⟩ := Table.reachable_wellFormed hblanked
    exact ⟨wide, hwide, hnames, hrectangular⟩
  · obtain ⟨-, -, hrefused⟩ := Table.reachable_wellFormed hrows
    have hrefusal : Table.assign ⟨"humidity", .numeric [none]⟩ sightingRows =
        .error (.dimensionMismatch 4 1) sightingRows := rfl
    exact ⟨_, hrefusal, hrefused _ _ _ hrefusal⟩

end Infill
