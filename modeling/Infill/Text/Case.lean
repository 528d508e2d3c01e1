import Infill.Text.CaseTable

/-!
Lower case of a text. Every character maps on its own, apart from two: a dotted capital I keeps its
dot as a combining mark, and a capital sigma becomes the final form where it ends a word.
-/

namespace Infill.Text

/-- Skipping what case ignores, the next character is a cased letter. -/
def meetsLetter (cs : List Char) : Bool :=
  match cs.dropWhile isCaseIgnorable with
  | c :: _ => isCased c
  | [] => false

/-- The lower case of `c` between the characters `before` it, nearest first, and those `after` it. -/
def lowerChar (before : List Char) (c : Char) (after : List Char) : List Char :=
  if c = 'İ' then ['i', '\u0307']
  else if c = 'Σ' then
    if meetsLetter before && !meetsLetter after then ['ς'] else ['σ']
  else if c.toNat < 0x80 then [c.toLower]
  else [Char.ofNat (lowerPoint c.toNat)]

def lowerFrom (before : List Char) : List Char → List Char
  | [] => []
  | c :: after => lowerChar before c after ++ lowerFrom (c :: before) after

def lower (s : String) : String := String.ofList (lowerFrom [] s.toList)

/-- `needle` stands somewhere in the text. -/
def occursIn (needle : List Char) : List Char → Bool
  | [] => needle.isEmpty
  | c :: rest => needle.isPrefixOf (c :: rest) || occursIn needle rest

end Infill.Text
