import Infill.Calendar.DateTime
import Infill.Text.Blank

/-!
How the text of a date column is read. A granularity fixes the form of the text and the point in
time that it stands for: the Monday of a week, the first day of a month or of a year, a day, or a
second. Blanks around the text and in front of a number are skipped.
-/

namespace Infill.Calendar

inductive Granularity
  | week
  | month
  | year
  | timestamp
  | day
  deriving DecidableEq, Repr

def Granularity.name : Granularity → String
  | .week => "week"
  | .month => "month"
  | .year => "year"
  | .timestamp => "timestamp"
  | .day => "day"

namespace Reader

/-- One to `width` digits, and what follows them. -/
def number? (width : Nat) (cs : List Char) : Option (Nat × List Char) :=
  let digits := (cs.take width).takeWhile Char.isDigit
  if digits.isEmpty then none else some (Text.digitsValue digits, cs.drop digits.length)

/-- A number of at most two digits behind blanks. -/
def field? (cs : List Char) : Option (Nat × List Char) := number? 2 (Text.dropBlank cs)

/-- A year behind blanks: at most four digits, or a sign and any number of digits. -/
def year? (cs : List Char) : Option (Int × List Char) :=
  match Text.dropBlank cs with
  | '-' :: rest => (number? rest.length rest).map fun (n, rest) => (-(n : Int), rest)
  | '+' :: rest => (number? rest.length rest).map fun (n, rest) => ((n : Int), rest)
  | rest => (number? 4 rest).map fun (n, rest) => ((n : Int), rest)

def mark? (c : Char) : List Char → Option (List Char)
  | [] => none
  | d :: rest => if d = c then some rest else none

/-- A year, a month and a day joined by hyphens. -/
def date? (cs : List Char) : Option (Date × List Char) := do
  let (year, cs) ← year? cs
  let (month, cs) ← field? (← mark? '-' cs)
  let (day, cs) ← field? (← mark? '-' cs)
  return (← Date.of? year month day, cs)

/-- A date with nothing behind it. -/
def wholeDate? (cs : List Char) : Option Date := do
  let (date, rest) ← date? cs
  if rest.isEmpty then some date else none

/-- A date, then hour, minute and second joined by colons. -/
def dateTime? (cs : List Char) : Option DateTime := do
  let (date, cs) ← date? cs
  let (hour, cs) ← field? cs
  let (minute, cs) ← field? (← mark? ':' cs)
  let (second, rest) ← field? (← mark? ':' cs)
  if rest.isEmpty then DateTime.of? date hour minute second else none

/-- A year and a week number around the first hyphen; the letter W may stand before the week. -/
def week? (cs : List Char) : Option Date := do
  let week ← mark? '-' (cs.dropWhile (· ≠ '-'))
  let year ← Text.signed? 32 (cs.takeWhile (· ≠ '-'))
  let number ← Text.unsigned? 32 (week.dropWhile fun c => c = 'W' || c = 'w')
  Date.ofWeek? year number

end Reader

def Granularity.read? (g : Granularity) (s : String) : Option DateTime :=
  let cs := Text.trimBlank s.toList
  match g with
  | .week => (Reader.week? cs).map Date.midnight
  | .month => (Reader.wholeDate? (cs ++ ['-', '0', '1'])).map Date.midnight
  | .year => (Text.signed? 32 cs).bind fun year => (Date.of? year 1 1).map Date.midnight
  | .timestamp => Reader.dateTime? cs
  | .day => (Reader.wholeDate? cs).map Date.midnight

end Infill.Calendar
