import RecordFilter.Calendar
import RecordFilter.Numeral
/-!
# Instants

A point in time, in seconds from 1970-01-01 00:00:00 UTC and nanoseconds within the second.  A leap
second, written `:60`, belongs to the second before it: its nanoseconds are counted on from
`10 ^ 9`.  Instants lie in the years -262143 to 262142.
-/

namespace RecordFilter

structure Instant where
  seconds : Int
  nanos : Nat
  nanos_lt : nanos < 2000000000
  /-- A leap second follows a second 59. -/
  leap : 1000000000 ≤ nanos → seconds % 60 = 59
  seconds_ge : -8334601228800 ≤ seconds
  seconds_le : seconds ≤ 8210266876799
deriving DecidableEq, Repr

/-- A time of day; the second is 60 within a leap second. -/
structure TimeOfDay where
  hour : Nat
  minute : Nat
  second : Nat
deriving DecidableEq, Repr

namespace Instant

def of? (seconds : Int) (nanos : Nat) : Option Instant :=
  if h : nanos < 2000000000 ∧ (1000000000 ≤ nanos → seconds % 60 = 59) ∧
      -8334601228800 ≤ seconds ∧ seconds ≤ 8210266876799 then
    some ⟨seconds, nanos, h.1, h.2.1, h.2.2.1, h.2.2.2⟩
  else none

/-- The instant at a date and time of a clock that is `offset` minutes ahead of UTC. -/
def ofCivil? (date : Date) (time : TimeOfDay) (nanos : Nat) (offset : Int) : Option Instant :=
  if date.isValid && time.hour < 24 && time.minute < 60 && time.second ≤ 60 then
    let second := min time.second 59
    let nanos := if time.second = 60 then nanos + 1000000000 else nanos
    let inDay := time.hour * 3600 + time.minute * 60 + second
    of? (date.dayNumber * 86400 + inDay - offset * 60) nanos
  else none

def compare (a b : Instant) : Ordering :=
  (Ord.compare a.seconds b.seconds).then (Ord.compare a.nanos b.nanos)

def date (t : Instant) : Date := Date.ofDayNumber (t.seconds / 86400)

def timeOfDay (t : Instant) : TimeOfDay :=
  let inDay := (t.seconds % 86400).toNat
  ⟨inDay / 3600, inDay / 60 % 60, inDay % 60 + if t.nanos < 1000000000 then 0 else 1⟩

/-! ### Texts -/

/-- A year: four digits, or more with a sign when it is not one of the years 0 to 9999. -/
def yearText (year : Int) : List Char :=
  if 0 ≤ year ∧ year ≤ 9999 then Numeral.padded year.natAbs 4
  else (if year < 0 then '-' else '+') :: Numeral.padded year.natAbs 4

def dateText (d : Date) : List Char :=
  yearText d.year ++ '-' :: Numeral.padded d.month 2 ++ '-' :: Numeral.padded d.day 2

def timeText (t : TimeOfDay) : List Char :=
  Numeral.padded t.hour 2 ++ ':' :: Numeral.padded t.minute 2 ++ ':' :: Numeral.padded t.second 2

/-- The text that shows an instant, to the second. -/
def shown (t : Instant) : String :=
  String.ofList (dateText t.date ++ ' ' :: timeText t.timeOfDay)

/-- A fraction of a second with a point, in as few groups of three digits as it takes. -/
def fractionText (nanos : Nat) : List Char :=
  if nanos = 0 then []
  else if nanos % 1000000 = 0 then '.' :: Numeral.padded (nanos / 1000000) 3
  else if nanos % 1000 = 0 then '.' :: Numeral.padded (nanos / 1000) 6
  else '.' :: Numeral.padded nanos 9

/-- The complete text of an instant, `YYYY-MM-DDTHH:MM:SS.fffZ`. -/
def internetText (t : Instant) : String :=
  String.ofList (dateText t.date ++ 'T' :: timeText t.timeOfDay ++
    fractionText (t.nanos % 1000000000) ++ ['Z'])

end Instant

end RecordFilter
