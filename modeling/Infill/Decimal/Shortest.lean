/-!
The shortest decimal that names a double. A positive double is `sig * 2 ^ exp`; the reals that round
to it form an interval around it, which is narrower below when `sig` is the least normal one. Among
the decimals `c * 10 ^ t` inside the interval, those with the fewest digits are kept and the nearest
of them is taken, the upper one on a tie. All comparisons are between natural numbers.
-/

namespace Infill

structure Dyadic where
  sig : Nat
  exp : Int
  /-- The interval reaches a quarter of a unit below, instead of a half. -/
  narrow : Bool
  deriving DecidableEq, Repr

/-- The magnitude of a finite double, read off its bits. -/
def Dyadic.ofBits (bits : UInt64) : Dyadic :=
  let fraction := (bits &&& 0xfffffffffffff).toNat
  let field := ((bits >>> 52) &&& 0x7ff).toNat
  if field = 0 then ⟨fraction, -1074, false⟩
  else ⟨Nat.pow 2 52 + fraction, (field : Int) - 1075, fraction = 0 && 1 < field⟩

/-- `digits * 10 ^ exp`. -/
structure Decimal where
  digits : Nat
  exp : Int
  deriving DecidableEq, Repr

def digitCount (n : Nat) : Nat := (Nat.toDigits 10 n).length

/-- The exponent `e` with `10 ^ (e - 1) ≤ x < 10 ^ e`, for a positive `x`. -/
def Dyadic.magnitude (x : Dyadic) : Int :=
  let num := x.sig * Nat.pow 2 x.exp.toNat
  let den := Nat.pow 2 (-x.exp).toNat
  if den ≤ num then digitCount (num / den) else 1 - (digitCount ((den - 1) / num) : Int)

/-- The nearer of the two neighbours of `x` on the grid of multiples of `10 ^ t` that lie in the
interval of `x`, if any does. -/
def Dyadic.onGrid? (x : Dyadic) (t : Int) : Option Nat :=
  let unit := Nat.pow 10 t.toNat * Nat.pow 2 (2 - x.exp).toNat
  let scale := Nat.pow 10 (-t).toNat * Nat.pow 2 (x.exp - 2).toNat
  let value := 4 * x.sig * scale
  let low := (4 * x.sig - if x.narrow then 1 else 2) * scale
  let high := (4 * x.sig + 2) * scale
  let inside (c : Nat) : Bool :=
    if x.sig % 2 = 0 then low ≤ c * unit && c * unit ≤ high
    else low < c * unit && c * unit < high
  let below := value / unit
  let above := below + 1
  match inside below, inside above with
  | true, true => some (if value - below * unit < above * unit - value then below else above)
  | true, false => some below
  | false, true => some above
  | false, false => none

/-- The shortest decimal of a positive double: seventeen digits always suffice. -/
def Dyadic.shortest (x : Dyadic) : Decimal :=
  let top := x.magnitude
  let found := (List.range 17).findSome? fun (i : Nat) =>
    let t := top - 1 - (i : Int)
    (x.onGrid? t).map (Decimal.mk · t)
  match found with
  | some d => if d.digits % 10 = 0 then ⟨d.digits / 10, d.exp + 1⟩ else d
  | none => ⟨0, 0⟩

/-- Positional text: no exponent, no point behind a whole number. -/
def Decimal.positional (d : Decimal) : String :=
  let digits := Nat.toDigits 10 d.digits
  let zeros (n : Nat) := List.replicate n '0'
  if 0 ≤ d.exp then String.ofList (digits ++ zeros d.exp.toNat)
  else
    let places := (-d.exp).toNat
    if places < digits.length then
      let whole := digits.length - places
      String.ofList (digits.take whole ++ '.' :: digits.drop whole)
    else String.ofList ('0' :: '.' :: zeros (places - digits.length) ++ digits)

end Infill
