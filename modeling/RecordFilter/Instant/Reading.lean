import RecordFilter.Instant
import RecordFilter.Text.Blank
/-!
# Reading instants

`readInternet?` takes the date-times of RFC 3339, where every field has a fixed width and the
offset from UTC is written.  `read?` also takes a date with a time, or a date alone, in UTC; there
the fields may be narrower and may have white space in front.
-/

namespace RecordFilter.Instant

/-! ### Fields -/

/-- Reads a number of at least `least` digits, and stops after `most`. -/
def readDigits? (least most : Nat) (s : List Char) : Option (Nat × List Char) :=
  let digits := (s.take most).takeWhile Char.isDigit
  if digits.length < least then none else some (Numeral.value digits, s.drop digits.length)

def readChar? (c : Char) : List Char → Option (List Char)
  | [] => none
  | d :: rest => if d = c then some rest else none

/-! ### RFC 3339 -/

/-- Reads the fraction of a second, if there is one; digits after the ninth are dropped. -/
def readFraction? : List Char → Option (Nat × List Char)
  | '.' :: rest =>
    let (digits, rest) := Numeral.leadingDigits rest
    let kept := digits.take 9
    if digits.isEmpty then none
    else some (Numeral.value kept * Nat.pow 10 (9 - kept.length), rest)
  | s => some (0, s)

def readOffset? : List Char → Option (Int × List Char)
  | [] => none
  | c :: rest =>
    if c = 'Z' || c = 'z' then some (0, rest)
    else do
      let negative ←
        if c = '+' then some false else if c = '-' || c = '\u2212' then some true else none
      let (hours, rest) ← readDigits? 2 2 rest
      let rest ← readChar? ':' rest
      let (minutes, rest) ← readDigits? 2 2 rest
      if hours ≤ 23 && minutes ≤ 59 then
        let offset : Int := (hours * 60 + minutes : Nat)
        some (if negative then -offset else offset, rest)
      else none

/-- Reads a date-time of RFC 3339; a `t` or a space may stand for the `T`. -/
def readInternet? (s : List Char) : Option Instant := do
  let (year, s) ← readDigits? 4 4 s
  let s ← readChar? '-' s
  let (month, s) ← readDigits? 2 2 s
  let s ← readChar? '-' s
  let (day, s) ← readDigits? 2 2 s
  let s ← readChar? 'T' s <|> readChar? 't' s <|> readChar? ' ' s
  let (hour, s) ← readDigits? 2 2 s
  let s ← readChar? ':' s
  let (minute, s) ← readDigits? 2 2 s
  let s ← readChar? ':' s
  let (second, s) ← readDigits? 2 2 s
  let (nanos, s) ← readFraction? s
  let (offset, s) ← readOffset? s
  if s.isEmpty then ofCivil? ⟨year, month, day⟩ ⟨hour, minute, second⟩ nanos offset else none

/-! ### Dates and times in UTC -/

/-- Reads a number of one or two digits, after white space. -/
def readField? (s : List Char) : Option (Nat × List Char) := readDigits? 1 2 (Text.trimLeft s)

/-- Reads a year, after white space: up to four digits, or a sign and any number of digits. -/
def readYear? (s : List Char) : Option (Int × List Char) :=
  match Text.trimLeft s with
  | '-' :: rest => (readDigits? 1 rest.length rest).map fun (n, rest) => (-(n : Int), rest)
  | '+' :: rest => (readDigits? 1 rest.length rest).map fun (n, rest) => ((n : Int), rest)
  | rest => (readDigits? 1 4 rest).map fun (n, rest) => ((n : Int), rest)

def readDate? (s : List Char) : Option (Date × List Char) := do
  let (year, s) ← readYear? s
  let s ← readChar? '-' s
  let (month, s) ← readField? s
  let s ← readChar? '-' s
  let (day, s) ← readField? s
  return (⟨year, month, day⟩, s)

def readTime? (s : List Char) : Option (TimeOfDay × List Char) := do
  let (hour, s) ← readField? s
  let s ← readChar? ':' s
  let (minute, s) ← readField? s
  let s ← readChar? ':' s
  let (second, s) ← readField? s
  return (⟨hour, minute, second⟩, s)

/-- Reads a date and a time; `separate?` passes over what stands between them. -/
def readDateTime? (separate? : List Char → Option (List Char)) (s : List Char) :
    Option Instant := do
  let (date, s) ← readDate? s
  let s ← separate? s
  let (time, s) ← readTime? s
  if s.isEmpty then ofCivil? date time 0 0 else none

def readMidnight? (s : List Char) : Option Instant := do
  let (date, s) ← readDate? s
  if s.isEmpty then ofCivil? date ⟨0, 0, 0⟩ 0 0 else none

/-- Reads an instant in the first of these forms that fits: RFC 3339; a date and a time with white
    space, `T` or `t` between them; a date. -/
def read? (s : List Char) : Option Instant :=
  readInternet? s <|> readDateTime? (some ∘ Text.trimLeft) s <|>
    readDateTime? (readChar? 'T') s <|> readDateTime? (readChar? 't') s <|> readMidnight? s

end RecordFilter.Instant
