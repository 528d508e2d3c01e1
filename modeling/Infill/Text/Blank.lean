/-!
Blank characters: the code points that Unicode lists as white space.
-/

namespace Infill.Text

def blankRanges : List (Nat × Nat) :=
  [(0x09, 0x0d), (0x20, 0x20), (0x85, 0x85), (0xa0, 0xa0), (0x1680, 0x1680), (0x2000, 0x200a),
   (0x2028, 0x2029), (0x202f, 0x202f), (0x205f, 0x205f), (0x3000, 0x3000)]

def isBlank (c : Char) : Bool :=
  blankRanges.any fun (first, last) => first ≤ c.toNat && c.toNat ≤ last

def dropBlank (cs : List Char) : List Char := cs.dropWhile isBlank

/-- The text between the first and the last character that is not blank. -/
def trimBlank (cs : List Char) : List Char := (dropBlank (dropBlank cs).reverse).reverse

end Infill.Text
