import Infill.Chance.Draw

/-!
Grids of whole-number parameters, and the configurations that a search tries. With replacement every
parameter is drawn on its own; without it the whole grid is shuffled and cut off. Either way the
draws of a smaller budget open those of a larger one.
-/

namespace Infill.Search

open Chance (Generator)

/-- The values of the parameters, in the order of the grid. -/
abbrev Config := List (String × Nat)

namespace Config

/-- A parameter that is not there reads as 0; of two of one name the first counts. -/
def get (c : Config) (name : String) : Nat := ((c.find? (·.1 = name)).map (·.2)).getD 0

def text (c : Config) : String :=
  let pairs := c.map fun (name, value) => name ++ "=" ++ toString value
  "\x7b" ++ String.intercalate ", " pairs ++ "\x7d"

end Config

/-- Every parameter with the values it may take. -/
abbrev Grid := List (String × List Nat)

namespace Grid

def size (g : Grid) : Nat := g.foldr (fun dim n => dim.2.length * n) 1

/-- Every configuration; the first parameter changes slowest. -/
def all : Grid → List Config
  | [] => [[]]
  | (name, values) :: rest => values.flatMap fun v => (all rest).map ((name, v) :: ·)

/-- One value per parameter; the draw stops at a parameter without values. -/
def draw : Grid → Generator → Option Config × Generator
  | [], g => (some [], g)
  | (name, values) :: rest, g =>
    match Chance.choose values g with
    | (none, g) => (none, g)
    | (some v, g) =>
      let (config, g) := draw rest g
      (config.map ((name, v) :: ·), g)

/-- `count` draws, one after the other. -/
def drawMany (grid : Grid) : Nat → Generator → List Config
  | 0, _ => []
  | count + 1, g =>
    let (config, g) := grid.draw g
    config.toList ++ grid.drawMany count g

end Grid

inductive Sampling
  | withReplacement
  | withoutReplacement
  deriving DecidableEq, Repr

/-- What a search may spend and where its draws start. -/
structure Plan where
  trials : Nat
  seed : UInt64
  sampling : Sampling

def Plan.draws (plan : Plan) (grid : Grid) : List Config :=
  let budget := min grid.size plan.trials
  let g := Generator.ofSeed plan.seed
  match plan.sampling with
  | .withReplacement => grid.drawMany budget g
  | .withoutReplacement => (Chance.shuffle grid.all g).1.take budget

end Infill.Search
