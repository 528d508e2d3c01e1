import Infill.Calendar.Date
import Infill.Text.Whole

/-!
Points in time: a date and a time of day to the second. Second 60 is a leap second. It comes after
second 59 of its minute, and counts as that second where time is measured.
-/

namespace Infill.Calendar

structure DateTime where
  date : Date
  hour : Nat
  minute : Nat
  second : Nat
  deriving DecidableEq, Repr, Inhabited

/-- The time of day of an hour, a minute and a second that exist. -/
def DateTime.of? (date : Date) (hour minute second : Nat) : Option DateTime :=
  if hour < 24 && minute < 60 && second ≤ 60 then some ⟨date, hour, minute, second⟩ else none

def Date.midnight (d : Date) : DateTime := ⟨d, 0, 0, 0⟩

/-- The earlier field decides. -/
def DateTime.before (a b : DateTime) : Bool :=
  a.date.year < b.date.year || a.date.year = b.date.year &&
  (a.date.month < b.date.month || a.date.month = b.date.month &&
  (a.date.day < b.date.day || a.date.day = b.date.day &&
  (a.hour < b.hour || a.hour = b.hour &&
  (a.minute < b.minute || a.minute = b.minute && a.second < b.second))))

/-- Seconds since the start of 1970. -/
def DateTime.epochSeconds (t : DateTime) : Int :=
  (t.date.dayNumber - epoch) * 86400 + t.hour * 3600 + t.minute * 60 + (min t.second 59 : Nat)

/-- Four digits; years outside of 0 to 9999 carry a sign. -/
def yearText (year : Int) : String :=
  let digits := Text.padded 4 year.natAbs
  if year < 0 then "-" ++ digits else if 9999 < year then "+" ++ digits else digits

def DateTime.text (t : DateTime) : String :=
  let two := Text.padded 2
  yearText t.date.year ++ "-" ++ two t.date.month ++ "-" ++ two t.date.day ++ " " ++ two t.hour
    ++ ":" ++ two t.minute ++ ":" ++ two t.second

end Infill.Calendar
