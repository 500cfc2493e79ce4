/-!
# The calendar

Dates of the Gregorian calendar, extended to all years in both directions (there is a year 0, and
years before it are negative), and their place on the line of days, where day 0 is 1970-01-01.

Both directions count years from the first of March, so that the leap day ends its year.  Then 400
years are always 146097 days, and a century, four years and a year are 36524, 1461 and 365 days
but for the one of each kind that holds an extra leap day, which comes last.
-/

namespace RecordFilter

/-- A year, a month and a day, not always one that exists. -/
structure Date where
  year : Int
  month : Nat
  day : Nat
deriving DecidableEq, Repr

namespace Date

def isLeapYear (year : Int) : Bool :=
  year % 4 == 0 && (year % 100 != 0 || year % 400 == 0)

def daysInMonth (year : Int) (month : Nat) : Nat :=
  match month with
  | 2 => if isLeapYear year then 29 else 28
  | 4 | 6 | 9 | 11 => 30
  | _ => 31

def isValid (d : Date) : Bool :=
  1 ≤ d.month && d.month ≤ 12 && 1 ≤ d.day && d.day ≤ daysInMonth d.year d.month

/-- The days from the first of March to the first of the month that is `shifted` months later. -/
def daysBeforeMonth (shifted : Nat) : Nat := (153 * shifted + 2) / 5

/-- The number of the day; day 0 is 1970-01-01. -/
def dayNumber (d : Date) : Int :=
  let year := if d.month ≤ 2 then d.year - 1 else d.year
  365 * year + year / 4 - year / 100 + year / 400 + daysBeforeMonth ((d.month + 9) % 12) +
    d.day - 719469

def ofDayNumber (n : Int) : Date :=
  let sinceMarch := n + 719468
  let inEra := (sinceMarch % 146097).toNat
  let century := min 3 (inEra / 36524)
  let inCentury := inEra - century * 36524
  let leapCycle := inCentury / 1461
  let inCycle := inCentury % 1461
  let yearOfCycle := min 3 (inCycle / 365)
  let inYear := inCycle - yearOfCycle * 365
  let year := sinceMarch / 146097 * 400 + (century * 100 + leapCycle * 4 + yearOfCycle : Nat)
  let shifted := (5 * inYear + 2) / 153
  let day := inYear - daysBeforeMonth shifted + 1
  if shifted < 10 then ⟨year, shifted + 3, day⟩ else ⟨year + 1, shifted - 9, day⟩

end Date

end RecordFilter
