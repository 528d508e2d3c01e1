import Infill.Chance.Stream

/-!
Uniform draws from a stream of words. A draw below `n` scales a word to `n` and looks at the part
that is cut off; words that would favour some results are passed over. No more than `patience` words
are passed over, so that a draw ends on every stream; its result is below `n` in any case.
-/

namespace Infill.Chance

/-- The width of the words that a draw scales. -/
inductive Width
  | half
  | full

def Width.bits : Width → Nat
  | .half => 32
  | .full => 64

def Generator.draw (g : Generator) : Width → Nat × Generator
  | .half => g.draw32
  | .full => g.draw64

theorem Generator.draw_lt (g : Generator) (w : Width) : (g.draw w).1 < Nat.pow 2 w.bits := by
  cases w with
  | half => exact g.word.1.toNat_lt
  | full =>
    have hlow := g.word.1.toNat_lt
    have hhigh := g.word.2.word.1.toNat_lt
    change g.word.1.toNat + 2 ^ 32 * g.word.2.word.1.toNat < 2 ^ 64
    omega

/-- The largest cut-off part that is accepted: the largest multiple of `n` by a power of two that
the words can hold, less one. -/
def zone (w : Width) (n : Nat) : Nat := n * Nat.pow 2 (w.bits - (n.log2 + 1)) - 1

def patience : Nat := 1000

def belowWithin (w : Width) (n : Nat) : Nat → Generator → Nat × Generator
  | 0, g =>
    let (v, g) := g.draw w
    (v * n / Nat.pow 2 w.bits, g)
  | tries + 1, g =>
    let (v, g) := g.draw w
    if v * n % Nat.pow 2 w.bits ≤ zone w n then (v * n / Nat.pow 2 w.bits, g)
    else belowWithin w n tries g

def below (w : Width) (n : Nat) (g : Generator) : Nat × Generator := belowWithin w n patience g

theorem belowWithin_lt (w : Width) {n : Nat} (hn : 0 < n) (tries : Nat) (g : Generator) :
    (belowWithin w n tries g).1 < n := by
  have hscaled : ∀ g : Generator, (g.draw w).1 * n / Nat.pow 2 w.bits < n := fun g =>
    Nat.div_lt_of_lt_mul (Nat.mul_lt_mul_of_pos_right (g.draw_lt w) hn)
  induction tries generalizing g with
  | zero => exact hscaled g
  | succ tries ih =>
    rw [belowWithin]
    dsimp only
    split
    · exact hscaled g
    · exact ih _

theorem below_lt (w : Width) {n : Nat} (hn : 0 < n) (g : Generator) : (below w n g).1 < n := by
  rw [below]
  exact belowWithin_lt w hn patience g

/-- An element of a list; an empty list has none, and leaves the stream alone. -/
def choose {β : Type} (xs : List β) (g : Generator) : Option β × Generator :=
  if xs.isEmpty then (none, g)
  else
    let (i, g) := below .half xs.length g
    (xs[i]?, g)

/-- Exchanges each of the positions `i`, …, 1 with a position at or before it. -/
def shuffleFrom {β : Type} : Nat → Array β → Generator → Array β × Generator
  | 0, xs, g => (xs, g)
  | i + 1, xs, g =>
    let (j, g) := below .half (i + 2) g
    shuffleFrom i (xs.swapIfInBounds (i + 1) j) g

def shuffle {β : Type} (xs : List β) (g : Generator) : List β × Generator :=
  let (ys, g) := shuffleFrom (xs.length - 1) xs.toArray g
  (ys.toList, g)

/-- `count` positions below `n`, each drawn from all of them. -/
def positions (n : Nat) : Nat → Generator → List Nat × Generator
  | 0, g => ([], g)
  | count + 1, g =>
    let (i, g) := below .full n g
    let (rest, g) := positions n count g
    (i :: rest, g)

theorem length_positions (n count : Nat) (g : Generator) :
    (positions n count g).1.length = count := by
  induction count generalizing g with
  | zero => rfl
  | succ count ih => simp only [positions, List.length_cons, ih]

theorem lt_of_mem_positions {n : Nat} (hn : 0 < n) {count : Nat} {g : Generator} {i : Nat}
    (h : i ∈ (positions n count g).1) : i < n := by
  induction count generalizing g with
  | zero => cases h
  | succ count ih =>
    simp only [positions, List.mem_cons] at h
    rcases h with rfl | h
    · exact below_lt .full hn g
    · exact ih h

end Infill.Chance
