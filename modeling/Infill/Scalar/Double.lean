import Infill.Scalar
import Infill.Decimal.Shortest

/-!
Doubles as scalars. A double serves as a label under its shortest positional decimal; the sorting
order reads the bits as a sign and a magnitude, so that it is total and puts `-0` before `0`.
-/

namespace Infill.Double

def isNegative (x : Float) : Bool := x.toBits >>> 63 == 1

/-- The shortest decimal of the magnitude of a finite double. -/
def decimal (x : Float) : Decimal :=
  let magnitude := Dyadic.ofBits x.toBits
  if magnitude.sig = 0 then ⟨0, 0⟩ else magnitude.shortest

def text (x : Float) : String :=
  if x.isNaN then "NaN"
  else
    let magnitude := if x.isInf then "inf" else (decimal x).positional
    if isNegative x then "-" ++ magnitude else magnitude

def sortKey (x : Float) : Int :=
  let bits := x.toBits.toNat
  if bits < Nat.pow 2 63 then bits else (Nat.pow 2 63 : Int) - (bits : Int) - 1

def ofNat (n : Nat) : Float :=
  if n < Nat.pow 2 64 then n.toUInt64.toFloat else Float.ofScientific n false 0

instance : Scalar Float where
  zero := 0.0
  one := 1.0
  natCast := ofNat
  intCast i := if i < 0 then -ofNat i.natAbs else ofNat i.natAbs
  decLt a b := inferInstanceAs (Decidable (a < b))
  decLe a b := inferInstanceAs (Decidable (a ≤ b))
  sqrt := Float.sqrt
  round := Float.round
  toWord x := x.toUInt64.toNat
  toSignedWord x := x.toInt64.toInt
  nan := 0.0 / 0.0
  isNaN := Float.isNaN
  isFinite := Float.isFinite
  sortLe a b := sortKey a ≤ sortKey b
  text := text

end Infill.Double
