import Mathlib.Data.Finset.Card
import Infill.Prepare
import Infill.Proofs.Distinct
import Infill.Proofs.Scalar.Order
import Infill.Proofs.Table.Redrawn

/-! Blanking the last keys of a table. The keys are ordered by the rows in which they come for the last
time, wherever else they come; the keys that only few others outlast lose their targets, on all of
their rows, and nothing else changes. -/

namespace Infill.Prepare

variable {α : Type}

section Keys

variable {labels : List (Option String)} {key other : String} {row count : Nat}

def keysOf (labels : List (Option String)) : Finset String := (labels.filterMap id).toFinset

def LastAt (labels : List (Option String)) (key : String) (row : Nat) : Prop :=
  labels[row]? = some (some key) ∧ ∀ later, row < later → labels[later]? ≠ some (some key)

/-- The row in which a key comes for the last time, if it comes at all. -/
def lastRow? (key : String) : List (Option String) → Option Nat
  | [] => none
  | label :: labels =>
    ((lastRow? key labels).map (· + 1)).or (if label = some key then some 0 else none)

theorem lastRow?_eq_none_iff : lastRow? key labels = none ↔ some key ∉ labels := by
  induction labels with
  | nil => simp [lastRow?]
  | cons label labels ih =>
    rw [lastRow?, Option.or_eq_none_iff, Option.map_eq_none_iff, ih, List.mem_cons, not_or, and_comm]
    simp [eq_comm]

theorem lastRow?_eq_some_iff : lastRow? key labels = some row ↔ LastAt labels key row := by
  unfold LastAt
  induction labels generalizing row with
  | nil => simp [lastRow?]
  | cons label labels ih =>
    rw [lastRow?]
    cases hlast : lastRow? key labels with
    | some last =>
      obtain ⟨hplace, hbehind⟩ := ih.1 hlast
      rw [Option.map_some, Option.some_or, Option.some.injEq]
      constructor
      · rintro rfl
        refine ⟨hplace, fun later hlater => ?_⟩
        obtain ⟨k, rfl⟩ : ∃ k, later = k + 1 := ⟨later - 1, by omega⟩
        exact hbehind k (by omega)
      · rintro ⟨hrow, hnone⟩
        by_contra hne
        rcases Nat.lt_or_gt_of_ne hne with hlt | hgt
        · obtain ⟨k, rfl⟩ : ∃ k, row = k + 1 := ⟨row - 1, by omega⟩
          exact hbehind k (by omega) hrow
        · exact hnone (last + 1) hgt hplace
    | none =>
      have hnowhere : ∀ row : Nat, labels[row]? ≠ some (some key) := fun row hrow =>
        lastRow?_eq_none_iff.1 hlast (List.mem_of_getElem? hrow)
      cases row with
      | zero =>
        have hbehind : ∀ later, 0 < later → (label :: labels)[later]? ≠ some (some key) := by
          intro later hlater
          obtain ⟨k, rfl⟩ : ∃ k, later = k + 1 := ⟨later - 1, by omega⟩
          exact hnowhere k
        simpa using fun _ => hbehind
      | succ row => simp [hnowhere row]

/-- The last row of one key is behind that of another. -/
def Outlasts (labels : List (Option String)) (other key : String) : Prop :=
  ∃ row row', LastAt labels key row ∧ LastAt labels other row' ∧ row < row'

theorem outlasts_iff : Outlasts labels other key ↔
    ∃ row ∈ lastRow? key labels, ∃ row' ∈ lastRow? other labels, row < row' := by
  simp only [Outlasts, Option.mem_def, lastRow?_eq_some_iff, exists_and_left]

instance : Decidable (Outlasts labels other key) :=
  haveI : Decidable (∃ row ∈ lastRow? key labels, ∃ row' ∈ lastRow? other labels, row < row') :=
    inferInstanceAs (Decidable (∃ _ ∈ _, _))
  decidable_of_iff' _ outlasts_iff

def outlasting (labels : List (Option String)) (key : String) : Finset String :=
  (keysOf labels).filter (Outlasts labels · key)

/-- The keys that fewer than `count` others outlast. -/
def tailKeys (labels : List (Option String)) (count : Nat) : Finset String :=
  (keysOf labels).filter fun key => (outlasting labels key).card < count

/-- The target of a row whose key is one of the last. -/
def blankTail (labels : List (Option String)) (count row : Nat) (cell : Option α) : Option α :=
  match labels[row]?.join with
  | some key => if key ∈ tailKeys labels count then none else cell
  | none => cell

theorem mem_keysOf : key ∈ keysOf labels ↔ some key ∈ labels := by
  simp [keysOf]

/-- The keys of the rows behind the first one keep their order. -/
theorem Outlasts.cons (h : Outlasts labels other key) (label : Option String) :
    Outlasts (label :: labels) other key := by
  obtain ⟨row, hrow, row', hrow', hlt⟩ := outlasts_iff.1 h
  rw [Option.mem_def] at hrow hrow'
  refine outlasts_iff.2 ⟨row + 1, ?_, row' + 1, ?_, Nat.succ_lt_succ hlt⟩
  · simp [lastRow?, hrow]
  · simp [lastRow?, hrow']

/-- A key that comes in the first row only is outlasted by all others. -/
theorem outlasts_cons_self (hkey : some key ∉ labels) (hother : some other ∈ labels) :
    Outlasts (some key :: labels) other key := by
  have hhere : lastRow? key labels = none := lastRow?_eq_none_iff.2 hkey
  obtain ⟨row, hrow⟩ := Option.ne_none_iff_exists'.1 (lastRow?_eq_none_iff.not_left.2 hother)
  refine outlasts_iff.2 ⟨0, ?_, row + 1, ?_, Nat.succ_pos row⟩
  · simp [lastRow?, hhere]
  · simp [lastRow?, hrow]

theorem Outlasts.asymm (h : Outlasts labels other key) : ¬ Outlasts labels key other := by
  intro h'
  obtain ⟨row, hrow, row', hrow', hlt⟩ := outlasts_iff.1 h
  obtain ⟨row₂, hrow₂, row₂', hrow₂', hlt₂⟩ := outlasts_iff.1 h'
  obtain rfl := Option.mem_unique hrow hrow₂'
  obtain rfl := Option.mem_unique hrow' hrow₂
  omega

theorem mem_lastFirst : key ∈ lastFirst labels ↔ some key ∈ labels := by
  simp [lastFirst]

theorem lastFirst_cons (label : Option String) (labels : List (Option String)) :
    lastFirst (label :: labels) = match label with
      | none => lastFirst labels
      | some key => if some key ∈ labels then lastFirst labels else lastFirst labels ++ [key] := by
  cases label with
  | none => rfl
  | some key => simp [lastFirst, eraseDups_concat]

/-- Every key outlasts those behind it. -/
theorem lastFirst_outlasts (labels : List (Option String)) :
    (lastFirst labels).Pairwise (Outlasts labels) := by
  induction labels with
  | nil => exact .nil
  | cons label labels ih =>
    have hlonger := ih.imp (Outlasts.cons · label)
    rw [lastFirst_cons]
    cases label with
    | none => exact hlonger
    | some key =>
      dsimp only
      split_ifs with hkey
      · exact hlonger
      · refine List.pairwise_append.2 ⟨hlonger, List.pairwise_singleton _ _, ?_⟩
        intro other hother key' hkey'
        obtain rfl := List.mem_singleton.1 hkey'
        exact outlasts_cons_self hkey (mem_lastFirst.1 hother)

theorem nodup_lastFirst (labels : List (Option String)) : (lastFirst labels).Nodup :=
  nodup_eraseDups _

theorem toFinset_lastFirst (labels : List (Option String)) :
    (lastFirst labels).toFinset = keysOf labels := by
  ext key
  rw [List.mem_toFinset, mem_lastFirst, mem_keysOf]

theorem length_lastFirst (labels : List (Option String)) :
    (lastFirst labels).length = (keysOf labels).card := by
  rw [← toFinset_lastFirst, List.toFinset_card_of_nodup (nodup_lastFirst labels)]

theorem card_outlasting {before after : List String}
    (h : lastFirst labels = before ++ key :: after) :
    (outlasting labels key).card = before.length := by
  have houtlasts := lastFirst_outlasts labels
  have hnodup := nodup_lastFirst labels
  rw [h] at houtlasts hnodup
  obtain ⟨-, hfrom, hinto⟩ := List.pairwise_append.1 houtlasts
  have hfront : outlasting labels key = before.toFinset := by
    ext other
    rw [outlasting, ← toFinset_lastFirst, h, Finset.mem_filter, List.mem_toFinset,
      List.mem_toFinset, List.mem_append, List.mem_cons]
    constructor
    · rintro ⟨hother | rfl | hother, hout⟩
      · exact hother
      · exact absurd hout hout.asymm
      · exact absurd hout ((List.pairwise_cons.1 hfrom).1 other hother).asymm
    · exact fun hother => ⟨.inl hother, hinto other hother key List.mem_cons_self⟩
  rw [hfront, List.toFinset_card_of_nodup (List.nodup_append.1 hnodup).1]

/-- The keys that few others outlast stand in front. -/
theorem mem_take_lastFirst : key ∈ (lastFirst labels).take count ↔ key ∈ tailKeys labels count := by
  rw [tailKeys, Finset.mem_filter, ← toFinset_lastFirst, List.mem_toFinset]
  constructor
  · intro hkey
    obtain ⟨i, hi, hplace⟩ := List.mem_take_iff_getElem.1 hkey
    have hlt : i < (lastFirst labels).length := by omega
    refine ⟨List.mem_of_mem_take hkey, ?_⟩
    have hsplit := (List.take_append_drop i (lastFirst labels)).symm
    rw [List.drop_eq_getElem_cons hlt, hplace] at hsplit
    rw [card_outlasting hsplit, List.length_take]
    omega
  · rintro ⟨hkey, hfew⟩
    obtain ⟨before, after, hsplit⟩ := List.append_of_mem hkey
    rw [card_outlasting hsplit] at hfew
    rw [hsplit, List.take_append]
    obtain ⟨n, hn⟩ := Nat.exists_eq_add_of_lt hfew
    have hrest : count - before.length = n + 1 := by omega
    simp [hrest]

theorem toFinset_take_lastFirst (labels : List (Option String)) (count : Nat) :
    ((lastFirst labels).take count).toFinset = tailKeys labels count := by
  ext key
  rw [List.mem_toFinset, mem_take_lastFirst]

theorem card_tailKeys (labels : List (Option String)) (count : Nat) :
    (tailKeys labels count).card = min count (keysOf labels).card := by
  have hnodup := (nodup_lastFirst labels).sublist (List.take_sublist count _)
  rw [← toFinset_take_lastFirst, List.toFinset_card_of_nodup hnodup, List.length_take,
    length_lastFirst]

theorem tailKeys_mono {count' : Nat} (h : count ≤ count') :
    tailKeys labels count ⊆ tailKeys labels count' :=
  Finset.monotone_filter_right _ fun _ _ hfew => hfew.trans_le h

theorem blankKeys_eq (labels : List (Option String)) (count : Nat) (values : List (Option α)) :
    blankKeys labels ((lastFirst labels).take count) values =
      values.mapIdx (blankTail labels count) := by
  unfold blankKeys blankTail
  congr 1
  funext row cell
  cases labels[row]?.join with
  | none => rfl
  | some key => simp only [List.contains_iff_mem, mem_take_lastFirst]

theorem blankTail_mono {count' : Nat} (h : count ≤ count') {cell : Option α}
    (hblank : blankTail labels count row cell = none) :
    blankTail labels count' row cell = none := by
  unfold blankTail at hblank ⊢
  cases hkey : labels[row]?.join with
  | none => simpa [hkey] using hblank
  | some key =>
    simp only [hkey] at hblank ⊢
    split_ifs at hblank with hin
    · rw [if_pos (tailKeys_mono h hin)]
    · rw [hblank, ite_self]

end Keys

variable [Scalar α]

/-- A positive share blanks the target on all rows of as many of the last keys, at least one of them, as
it is worth; nothing else changes. A key is blanked as a whole, and a larger count blanks all that a
smaller one does. -/
theorem nullifyTail_blanks [Scalar.OrdersNumbers α] {t out : Table α} {keys : List String}
    {target : String} {share : α} {settings : Settings α} (hshare : 0 < share)
    (h : nullifyTail t keys target share settings = .ok out) :
    ∃ key column labels count, nullifyKey t keys settings = some key ∧
      t.column? key = some column ∧ labels = column.cells.labels ∧
      count = max 1 (Scalar.toWord (((keysOf labels).card : α) * share / ((100 : Nat) : α))) ∧
      t.Redrawn [target] (fun _ => blankTail labels count) out ∧
      (tailKeys labels count).card = min count (keysOf labels).card ∧
      (∀ (row row' : Nat) (cell : Option α), labels[row]? = labels[row']? →
        blankTail labels count row cell = blankTail labels count row' cell) ∧
      ∀ count' ≥ count, tailKeys labels count ⊆ tailKeys labels count' ∧
        ∀ row (cell : Option α), blankTail labels count row cell = none →
          blankTail labels count' row cell = none := by
  have hpositive : ¬ share ≤ 0 := (Scalar.OrdersNumbers.lt_iff.1 hshare).2
  unfold nullifyTail at h
  rw [if_neg hpositive] at h
  cases hkey : nullifyKey t keys settings with
  | none =>
    rw [hkey] at h
    cases h
  | some key =>
    simp only [hkey, bind_ok_iff, Table.column_ok_iff] at h
    obtain ⟨column, hcolumn, h⟩ := h
    obtain ⟨values, hvalues, -⟩ := Table.update_numeric_self h
    refine ⟨key, column, _, _, rfl, hcolumn, rfl, rfl, ?_, card_tailKeys _ _, ?_, ?_⟩
    · rw [← length_lastFirst, max_comm]
      exact .update_one hvalues (blankKeys_eq _ _ _) h
    · intro row row' cell hrow
      rw [blankTail, hrow, blankTail]
    · exact fun count' hcount => ⟨tailKeys_mono hcount, fun row cell => blankTail_mono hcount⟩

def captures : Table Float where
  columns := [
    ⟨"month", .categorical [some "03", some "01", none, some "02", some "01"]⟩,
    ⟨"adults", .numeric [some 4.0, some 2.0, some 7.0, some 5.0, some 1.0]⟩]
  rowCount := 5

/-- Two of the three months are blanked. The one in the last row is blanked in its other row, too, and
the third one comes before the last rows of both. -/
theorem captures_tail_blanked : (0 : Float) < 70.0 ∧ ∃ out,
    nullifyTail captures [] "adults" 70.0 .standard = .ok out ∧ out.names = ["month", "adults"] ∧
    out.numeric "adults" = .ok [some 4.0, none, some 7.0, none, none] := by
  have hshare : (0 : Float) < 70.0 := by decide +kernel
  have hok : (nullifyTail captures [] "adults" 70.0 .standard).isOk = true := by decide +kernel
  obtain ⟨out, hout⟩ := isOk_iff.1 hok
  obtain ⟨key, column, labels, count, hkey, hcolumn, hlabels, hcount, hredrawn, -⟩ :=
    nullifyTail_blanks hshare hout
  obtain rfl : key = "month" := by
    have hmonth : nullifyKey captures [] .standard = some "month" := by decide +kernel
    exact Option.some.inj (hkey.symm.trans hmonth)
  obtain rfl := Option.some.inj hcolumn
  obtain rfl : labels = [some "03", some "01", none, some "02", some "01"] := hlabels
  obtain rfl : count = 2 := by
    rw [hcount]
    decide +kernel
  refine ⟨hshare, out, hout, hredrawn.names, ?_⟩
  rw [hredrawn.numeric 0 "adults" _ rfl rfl]
  rfl

end Infill.Prepare
