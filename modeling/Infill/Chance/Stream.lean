/-!
A deterministic stream of random words. A seed is stretched into a key of eight words; the stream is
the sequence of ChaCha blocks of twelve rounds under that key, numbered from 0.
-/

namespace Infill.Chance

/-- The sixteen words of a block. -/
abbrev Block := Vector UInt32 16

/-- A word turned left by `n` bits. -/
def turnLeft (x n : UInt32) : UInt32 := (x <<< n) ||| (x >>> (32 - n))

/-- Mixes the words at four positions. -/
def quarter (s : Block) (a b c d : Fin 16) : Block :=
  let x := s[a] + s[b]
  let w := turnLeft (s[d] ^^^ x) 16
  let z := s[c] + w
  let y := turnLeft (s[b] ^^^ z) 12
  let x := x + y
  let w := turnLeft (w ^^^ x) 8
  let z := z + w
  let y := turnLeft (y ^^^ z) 7
  (((s.set a x).set b y).set c z).set d w

/-- A round on the columns and a round on the diagonals. -/
def doubleRound (s : Block) : Block :=
  let s := quarter (quarter (quarter (quarter s 0 4 8 12) 1 5 9 13) 2 6 10 14) 3 7 11 15
  quarter (quarter (quarter (quarter s 0 5 10 15) 1 6 11 12) 2 7 8 13) 3 4 9 14

abbrev Key := Vector UInt32 8

def constants : Vector UInt32 4 := #v[0x61707865, 0x3320646e, 0x79622d32, 0x6b206574]

/-- The words that tell blocks of one key apart. -/
def blockNumber (n : UInt64) : Vector UInt32 4 := #v[n.toUInt32, (n >>> 32).toUInt32, 0, 0]

/-- The input of block number `n`. -/
def blockInput (key : Key) (n : UInt64) : Block := constants ++ key ++ blockNumber n

def block (key : Key) (n : UInt64) : Block :=
  let input := blockInput key n
  (Nat.repeat doubleRound 6 input).zipWith (· + ·) input

/-- One step of the generator that stretches a seed. -/
def seedStep (state : UInt64) : UInt64 := state * 6364136223846793005 + 11634580027462260723

/-- The word that a state of the seed generator gives out. -/
def seedWord (state : UInt64) : UInt32 :=
  let x := (((state >>> 18) ^^^ state) >>> 27).toUInt32
  let n := (state >>> 59).toUInt32
  (x >>> n) ||| (x <<< ((32 - n) &&& 31))

/-- The state of the seed generator after `n` steps. -/
def seedState (seed : UInt64) (n : Nat) : UInt64 := Nat.repeat seedStep n seed

def keyOfSeed (seed : UInt64) : Key := Vector.ofFn fun i => seedWord (seedState seed (i + 1))

/-- What is left of the current block, and the number of the next one. -/
structure Generator where
  key : Key
  next : UInt64
  pending : List UInt32

namespace Generator

def ofSeed (seed : UInt64) : Generator := ⟨keyOfSeed seed, 0, []⟩

def word (g : Generator) : UInt32 × Generator :=
  match g.pending with
  | w :: rest => (w, { g with pending := rest })
  | [] =>
    let b := block g.key g.next
    (b[0], { g with next := g.next + 1, pending := b.toList.tail })

/-- A number of 32 bits. -/
def draw32 (g : Generator) : Nat × Generator :=
  let (w, g) := g.word
  (w.toNat, g)

/-- A number of 64 bits, the low half first. -/
def draw64 (g : Generator) : Nat × Generator :=
  let (low, g) := g.word
  let (high, g) := g.word
  (low.toNat + Nat.pow 2 32 * high.toNat, g)

end Generator
end Infill.Chance
