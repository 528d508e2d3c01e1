import Mathlib.Data.List.Nodup
import Mathlib.Data.List.Perm.Basic
import Infill.Proofs.Pick
import Infill.Search.Grid

/-! The draws of a search are a sample of its grid. The grid lists as many configurations as it has size,
in the order of numbers of mixed radix whose first digit counts most. A search draws as many of them
as its budget and the size allow. A shuffle does not look at what it moves, so that without
replacement all draws come from different places of the list. -/

namespace Infill

namespace Chance

variable {β γ : Type}

theorem choose_of_ne_nil {xs : List β} (h : xs ≠ []) (g : Generator) :
    ∃ x ∈ xs, (choose xs g).1 = some x := by
  have hlt := below_lt .half (List.length_pos_iff.2 h) g
  refine ⟨xs[(below .half xs.length g).1], List.getElem_mem hlt, ?_⟩
  rw [choose, if_neg (by simpa using h)]
  exact List.getElem?_eq_getElem hlt

theorem swapIfInBounds_perm (xs : Array β) (i j : Nat) :
    (xs.swapIfInBounds i j).toList.Perm xs.toList := by
  unfold Array.swapIfInBounds
  split_ifs
  · exact (Array.swap_perm _ _).toList
  · exact .refl _
  · exact .refl _

theorem shuffleFrom_perm (i : Nat) (xs : Array β) (g : Generator) :
    (shuffleFrom i xs g).1.toList.Perm xs.toList := by
  induction i generalizing xs g with
  | zero => exact .refl _
  | succ i ih =>
    rw [shuffleFrom]
    dsimp only
    exact (ih _ _).trans (swapIfInBounds_perm ..)

theorem shuffle_perm (xs : List β) (g : Generator) : (shuffle xs g).1.Perm xs :=
  shuffleFrom_perm ..

theorem map_swapIfInBounds (f : β → γ) (xs : Array β) (i j : Nat) :
    (xs.map f).swapIfInBounds i j = (xs.swapIfInBounds i j).map f := by
  simp only [Array.swapIfInBounds, Array.size_map]
  split_ifs
  · refine Array.ext (by simp) fun k _ _ => ?_
    simp only [Array.getElem_swap, Array.getElem_map]
    split_ifs <;> rfl
  · rfl
  · rfl

theorem shuffleFrom_map (f : β → γ) (i : Nat) (xs : Array β) (g : Generator) :
    (shuffleFrom i (xs.map f) g).1 = (shuffleFrom i xs g).1.map f := by
  induction i generalizing xs g with
  | zero => rfl
  | succ i ih =>
    rw [shuffleFrom, shuffleFrom]
    dsimp only
    rw [map_swapIfInBounds, ih]

theorem shuffle_map (f : β → γ) (xs : List β) (g : Generator) :
    (shuffle (xs.map f) g).1 = (shuffle xs g).1.map f := by
  have harray : (xs.map f).toArray = xs.toArray.map f := by simp
  unfold shuffle
  dsimp only
  rw [harray, shuffleFrom_map, List.length_map, Array.toList_map]

/-- The places from which a shuffle of `n` entries takes them. -/
def shuffled (n : Nat) (g : Generator) : List Nat := (shuffle (List.range n) g).1

theorem shuffled_arranges (n : Nat) (g : Generator) : Arranges n (shuffled n g) :=
  shuffle_perm ..

theorem shuffle_eq_pick (xs : List β) (g : Generator) :
    (shuffle xs g).1 = pick (shuffled xs.length g) xs := by
  have hlisted : xs.map some = (List.range xs.length).map (xs[·]?) :=
    List.ext_getElem (by simp) (by simp)
  have hmoved : (shuffle xs g).1.map some = (shuffled xs.length g).map (xs[·]?) := by
    rw [← shuffle_map, hlisted, shuffle_map, shuffled]
  calc (shuffle xs g).1
    _ = ((shuffle xs g).1.map some).filterMap id := by simp [List.filterMap_map]
    _ = ((shuffled xs.length g).map (xs[·]?)).filterMap id := by rw [hmoved]
    _ = pick (shuffled xs.length g) xs := by rw [List.filterMap_map, pick]; rfl

end Chance

namespace Search

open Chance (Generator shuffled shuffled_arranges shuffle_eq_pick)

namespace Grid

/-- Blocks of one length, joined: the quotient tells the block and the remainder the place in it. -/
theorem getElem?_flatMap {β γ : Type} {f : β → List γ} {size : Nat} (hpos : 0 < size) {xs : List β}
    (h : ∀ x ∈ xs, (f x).length = size) (i : Nat) :
    (xs.flatMap f)[i]? = xs[i / size]?.bind fun x => (f x)[i % size]? := by
  induction xs generalizing i with
  | nil => rfl
  | cons x xs ih =>
    have hx := h x List.mem_cons_self
    rw [List.flatMap_cons]
    by_cases hi : i < size
    · rw [List.getElem?_append_left (hx ▸ hi), Nat.div_eq_of_lt hi, Nat.mod_eq_of_lt hi]
      rfl
    · obtain ⟨k, rfl⟩ := Nat.exists_eq_add_of_le (Nat.le_of_not_lt hi)
      rw [List.getElem?_append_right (by omega), hx, Nat.add_sub_cancel_left,
        ih fun y hy => h y (List.mem_cons_of_mem x hy), Nat.add_div_left k hpos,
        Nat.add_mod_left]
      rfl

theorem length_all (g : Grid) : g.all.length = g.size := by
  induction g with
  | nil => rfl
  | cons dim rest ih =>
    obtain ⟨name, values⟩ := dim
    simp [all, size, List.length_flatMap, ih]

/-- A configuration holds, for each parameter, the value at the digit of `i` that belongs to it: the
radix is the number of values, and the parameters behind it make up the weight. -/
structure Reads (g : Grid) (i : Nat) (config : Config) : Prop where
  length : config.length = g.length
  digit : ∀ j name values, g[j]? = some (name, values) →
    ∃ v, values[i / size (g.drop (j + 1)) % values.length]? = some v ∧ config[j]? = some (name, v)

/-- The weight of a digit and its radix are factors of the size. -/
theorem weight_dvd {g : Grid} {j : Nat} {name : String} {values : List Nat}
    (h : g[j]? = some (name, values)) : size (g.drop (j + 1)) * values.length ∣ g.size := by
  induction g generalizing j with
  | nil => cases h
  | cons dim rest ih =>
    cases j with
    | zero =>
      obtain rfl : dim = (name, values) := by simpa using h
      exact ⟨1, (Nat.mul_one _).symm ▸ Nat.mul_comm ..⟩
    | succ j => exact Nat.dvd_trans (ih (by simpa using h)) (Nat.dvd_mul_left ..)

/-- The listing counts in mixed radix. -/
theorem getElem?_all {g : Grid} {i : Nat} (h : i < g.size) :
    ∃ c, g.all[i]? = some c ∧ g.Reads i c := by
  induction g generalizing i with
  | nil =>
    obtain rfl : i = 0 := Nat.lt_one_iff.1 h
    exact ⟨[], rfl, rfl, by simp⟩
  | cons dim rest ih =>
    obtain ⟨name, values⟩ := dim
    have hsize : i < values.length * size rest := h
    have hpos : 0 < size rest := Nat.pos_of_mul_pos_left (Nat.zero_lt_of_lt hsize)
    have hdigit : i / size rest < values.length := Nat.div_lt_of_lt_mul (by rwa [Nat.mul_comm])
    obtain ⟨c, hc, hreads⟩ := ih (Nat.mod_lt i hpos)
    refine ⟨(name, values[i / size rest]) :: c, ?_, ?_, ?_⟩
    · have hblock : ∀ v ∈ values, ((all rest).map ((name, v) :: ·)).length = size rest :=
        fun v _ => by rw [List.length_map, length_all]
      rw [all, getElem?_flatMap hpos hblock, List.getElem?_eq_getElem hdigit, Option.bind_some,
        List.getElem?_map, hc]
      rfl
    · rw [List.length_cons, List.length_cons, hreads.length]
    · intro j name' values' hj
      cases j with
      | zero =>
        obtain ⟨rfl, rfl⟩ : name = name' ∧ values = values' := by simpa using hj
        refine ⟨values[i / size rest], ?_, rfl⟩
        rw [List.drop_succ_cons, List.drop_zero, Nat.mod_eq_of_lt hdigit]
        exact List.getElem?_eq_getElem hdigit
      | succ j =>
        obtain ⟨v, hv, hcv⟩ := hreads.digit j name' values' (by simpa using hj)
        refine ⟨v, ?_, by simpa using hcv⟩
        -- The digits behind the first one are those of the remainder.
        rwa [← Nat.mod_mul_right_div_self, Nat.mod_mod_of_dvd _ (weight_dvd (by simpa using hj)),
          Nat.mod_mul_right_div_self] at hv

theorem mem_all_cons {name : String} {values : List Nat} {rest : Grid} {c : Config} :
    c ∈ all ((name, values) :: rest) ↔ ∃ v ∈ values, ∃ d ∈ all rest, (name, v) :: d = c := by
  simp [all]

theorem get_mem {g : Grid} {c : Config} (hc : c ∈ g.all) {name : String}
    (hname : name ∈ g.map (·.1)) : ∃ values, (name, values) ∈ g ∧ c.get name ∈ values := by
  induction g generalizing c with
  | nil => cases hname
  | cons dim rest ih =>
    obtain ⟨first, values⟩ := dim
    obtain ⟨v, hv, d, hd, rfl⟩ := mem_all_cons.1 hc
    by_cases heq : first = name
    · subst heq
      exact ⟨values, List.mem_cons_self, by simpa [Config.get] using hv⟩
    · have hrest : name ∈ rest.map (·.1) :=
        (List.mem_cons.1 hname).resolve_left (Ne.symm heq)
      obtain ⟨values', hmem, hget⟩ := ih hd hrest
      refine ⟨values', List.mem_cons_of_mem _ hmem, ?_⟩
      simpa [Config.get, heq] using hget

/-- No configuration is listed twice if no parameter lists a value twice. -/
theorem nodup_all {g : Grid} (h : ∀ dim ∈ g, dim.2.Nodup) : g.all.Nodup := by
  induction g with
  | nil => exact List.nodup_singleton _
  | cons dim rest ih =>
    obtain ⟨name, values⟩ := dim
    have hrest := ih fun d hd => h d (List.mem_cons_of_mem _ hd)
    refine List.nodup_flatMap.2 ⟨fun v _ => hrest.map (List.cons_injective), ?_⟩
    refine (h _ List.mem_cons_self).imp fun {v w} hne => ?_
    rintro c hv hw
    obtain ⟨d, -, rfl⟩ := List.mem_map.1 hv
    obtain ⟨d', -, heq⟩ := List.mem_map.1 hw
    have hpair := (List.cons.inj heq).1
    exact hne (Prod.mk.inj hpair).2.symm

theorem draw_mem {g : Grid} (h : 0 < g.size) (gen : Generator) :
    ∃ c ∈ g.all, (g.draw gen).1 = some c := by
  induction g generalizing gen with
  | nil => exact ⟨[], by simp [all], rfl⟩
  | cons dim rest ih =>
    obtain ⟨name, values⟩ := dim
    have hsize : 0 < values.length * size rest := h
    have hvalues : values ≠ [] := List.length_pos_iff.1 (Nat.pos_of_mul_pos_right hsize)
    obtain ⟨v, hv, hchoose⟩ := Chance.choose_of_ne_nil hvalues gen
    obtain ⟨d, hd, hdraw⟩ := ih (Nat.pos_of_mul_pos_left hsize) (Chance.choose values gen).2
    refine ⟨(name, v) :: d, mem_all_cons.2 ⟨v, hv, d, hd, rfl⟩, ?_⟩
    have hpair : Chance.choose values gen = (some v, (Chance.choose values gen).2) :=
      Prod.ext hchoose rfl
    rw [draw, hpair]
    dsimp only
    rw [hdraw]
    rfl

theorem drawMany_sample {g : Grid} (h : 0 < g.size) (count : Nat) (gen : Generator) :
    (g.drawMany count gen).length = count ∧ ∀ c ∈ g.drawMany count gen, c ∈ g.all := by
  induction count generalizing gen with
  | zero => exact ⟨rfl, by simp [drawMany]⟩
  | succ count ih =>
    obtain ⟨c, hc, hdraw⟩ := draw_mem h gen
    obtain ⟨hlength, hmem⟩ := ih (g.draw gen).2
    rw [drawMany]
    dsimp only
    rw [hdraw, Option.toList_some, List.singleton_append]
    exact ⟨by rw [List.length_cons, hlength], List.forall_mem_cons.2 ⟨hc, hmem⟩⟩

end Grid

theorem Grid.shuffled_arranges (grid : Grid) (g : Generator) :
    Arranges grid.all.length (shuffled grid.size g) := by
  rw [length_all]
  exact Chance.shuffled_arranges ..

/-- Without replacement a plan draws from the first places of a shuffle. -/
theorem Plan.draws_without {plan : Plan} (h : plan.sampling = .withoutReplacement) (grid : Grid) :
    plan.draws grid = pick ((shuffled grid.size (.ofSeed plan.seed)).take
      (min grid.size plan.trials)) grid.all := by
  unfold draws
  rw [h]
  dsimp only
  rw [shuffle_eq_pick, Grid.length_all, pick_take (grid.shuffled_arranges _).within]

/-- The budget is spent up to the size of the grid, on configurations of the grid. -/
theorem Plan.draws_within (plan : Plan) (grid : Grid) :
    (plan.draws grid).length = min grid.size plan.trials ∧
      ∀ c ∈ plan.draws grid, c ∈ grid.all := by
  cases hsampling : plan.sampling with
  | withReplacement =>
    unfold Plan.draws
    rw [hsampling]
    dsimp only
    rcases Nat.eq_zero_or_pos grid.size with hzero | hpos
    · rw [hzero, Nat.zero_min]
      exact ⟨rfl, by simp [Grid.drawMany]⟩
    · exact Grid.drawMany_sample hpos _ _
  | withoutReplacement =>
    have harranged := grid.shuffled_arranges (.ofSeed plan.seed)
    rw [draws_without hsampling]
    refine ⟨?_, fun c => mem_of_mem_pick⟩
    rw [pick_take harranged.within, List.length_take, harranged.length_pick, Grid.length_all]
    omega

/-- The grid lists its configurations in the order of their digits, and a plan draws as many of them as
the size of the grid and its budget allow. Without replacement they come from different places of the
list: no draw is repeated where no parameter repeats a value, and a budget of the whole size draws all
of them in some order. -/
theorem draws_sample (grid : Grid) (plan : Plan) :
    (grid.all.length = grid.size ∧
      ∀ i < grid.size, ∃ c, grid.all[i]? = some c ∧ grid.Reads i c) ∧
    (plan.draws grid).length = min grid.size plan.trials ∧
    (∀ c ∈ plan.draws grid, c ∈ grid.all) ∧
    (plan.sampling = .withoutReplacement →
      (∃ places, places.Nodup ∧ Within grid.size places ∧
        plan.draws grid = pick places grid.all) ∧
      ((∀ dim ∈ grid, dim.2.Nodup) → (plan.draws grid).Nodup) ∧
      (grid.size ≤ plan.trials → (plan.draws grid).Perm grid.all)) := by
  obtain ⟨hlength, hmem⟩ := plan.draws_within grid
  refine ⟨⟨grid.length_all, fun i => Grid.getElem?_all⟩, hlength, hmem, fun hsampling => ?_⟩
  have harranged := grid.shuffled_arranges (.ofSeed plan.seed)
  have hdraws := Plan.draws_without hsampling grid
  refine ⟨⟨_, ?_, fun i hi => ?_, hdraws⟩, fun hvalues => ?_, fun hbudget => ?_⟩
  · exact (harranged.nodup_iff.2 List.nodup_range).sublist (List.take_sublist ..)
  · rw [← Grid.length_all]
    exact harranged.within i (List.mem_of_mem_take hi)
  · rw [hdraws, pick_take harranged.within]
    refine List.Nodup.sublist (List.take_sublist ..) ?_
    exact harranged.pick_perm.nodup_iff.2 (Grid.nodup_all hvalues)
  · have hall : (shuffled grid.size (.ofSeed plan.seed)).length ≤ grid.size :=
      (harranged.length.trans grid.length_all).le
    rw [hdraws, Nat.min_eq_left hbudget, List.take_of_length_le hall]
    exact harranged.pick_perm

end Search
end Infill
