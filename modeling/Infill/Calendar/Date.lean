/-!
The proleptic Gregorian calendar, year 0 included. Days are numbered from 1 January of year 1, which
is a Monday, so that the remainder of a day number by 7 is the day of the week.
-/

namespace Infill.Calendar

structure Date where
  year : Int
  month : Nat
  day : Nat
  deriving DecidableEq, Repr, Inhabited

def isLeap (year : Int) : Bool := year % 4 = 0 && (year % 100 ≠ 0 || year % 400 = 0)

def daysInMonth (year : Int) (month : Nat) : Nat :=
  match month with
  | 2 => if isLeap year then 29 else 28
  | 4 | 6 | 9 | 11 => 30
  | _ => 31

def firstYear : Int := -262143
def lastYear : Int := 262142

/-- The date of a year, month and day that exist and lie in the supported years. -/
def Date.of? (year : Int) (month day : Nat) : Option Date :=
  if firstYear ≤ year && year ≤ lastYear && 1 ≤ month && month ≤ 12 && 1 ≤ day
      && day ≤ daysInMonth year month then
    some ⟨year, month, day⟩
  else none

def daysBeforeYear (year : Int) : Int :=
  let past := year - 1
  365 * past + past / 4 - past / 100 + past / 400

def daysBeforeMonth (year : Int) (month : Nat) : Nat :=
  (List.range (month - 1)).foldl (fun days i => days + daysInMonth year (i + 1)) 0

def Date.dayNumber (d : Date) : Int :=
  daysBeforeYear d.year + daysBeforeMonth d.year d.month + (d.day - 1 : Int)

/-- The day number of 1 January 1970. -/
def epoch : Int := 719162

/-- The month and the day of the month that lie `offset` days after the first of `month`. -/
def dayOfYear (year : Int) (month offset : Nat) : Nat → Nat × Nat
  | 0 => (month, offset + 1)
  | months + 1 =>
    if offset < daysInMonth year month then (month, offset + 1)
    else dayOfYear year (month + 1) (offset - daysInMonth year month) months

/-- The Monday that opens the first week of a year: that week holds 4 January. -/
def firstMonday (year : Int) : Int :=
  let fourth := daysBeforeYear year + 3
  fourth - fourth % 7

/-- The Monday of a numbered week; it may fall into the calendar year before. -/
def Date.ofWeek? (year : Int) (week : Nat) : Option Date :=
  let monday := firstMonday year + 7 * ((week : Int) - 1)
  if week = 0 || firstMonday (year + 1) ≤ monday then none
  else
    let home := if monday < daysBeforeYear year then year - 1 else year
    let (month, day) := dayOfYear home 1 (monday - daysBeforeYear home).toNat 11
    Date.of? home month day

end Infill.Calendar
