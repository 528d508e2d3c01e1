/-!
Whole numbers in text: an optional sign, then ASCII digits and nothing else.
-/

namespace Infill.Text

def digitsValue (cs : List Char) : Nat :=
  cs.foldl (fun value c => 10 * value + (c.toNat - '0'.toNat)) 0

/-- At least one digit, digits only. -/
def natural? (cs : List Char) : Option Nat :=
  if cs ≠ [] && cs.all Char.isDigit then some (digitsValue cs) else none

/-- An unsigned number of the given number of bits; a plus sign may lead. -/
def unsigned? (bits : Nat) (cs : List Char) : Option Nat :=
  let digits := match cs with
    | '+' :: rest => rest
    | _ => cs
  (natural? digits).filter (· < Nat.pow 2 bits)

/-- A signed number of the given number of bits. -/
def signed? (bits : Nat) (cs : List Char) : Option Int :=
  let value : Option Int := match cs with
    | '-' :: rest => (natural? rest).map fun n => -(n : Int)
    | '+' :: rest => (natural? rest).map Int.ofNat
    | _ => (natural? cs).map Int.ofNat
  let bound : Int := Nat.pow 2 (bits - 1)
  value.filter fun i => -bound ≤ i && i < bound

/-- Decimal digits with leading zeros up to the given width. -/
def padded (width n : Nat) : String :=
  let digits := Nat.toDigits 10 n
  String.ofList (List.replicate (width - digits.length) '0' ++ digits)

end Infill.Text
