import RecordFilter.Binary64.Decimal
import RecordFilter.Json
/-!
# Numbers in JSON

A number with a point or an exponent is a float, and so is an integer of more than 64 bits.  The
digits of a float are collected into a 64-bit significand as long as they fit, and what comes after
them is dropped.  The significand is then multiplied or divided once by a power of ten, so the
result can be one step away from the nearest float.
-/

namespace RecordFilter.Json

structure NumberText where
  negative : Bool
  whole : List Char
  /-- The digits after the point, if there is one. -/
  fraction : Option (List Char)
  /-- The sign and the digits of the exponent, if there is one. -/
  power : Option (Bool × List Char)

namespace NumberText

def readPower? : List Char → Option (Option (Bool × List Char))
  | [] => some none
  | c :: rest =>
    let (negative, digits) := Numeral.sign rest
    if (c = 'e' || c = 'E') && !digits.isEmpty && digits.all Char.isDigit then
      some (some (negative, digits))
    else none

/-- Reads a whole text as a number: an integer without needless zeros in front, a point with
    digits after it, an exponent. -/
def read? (s : List Char) : Option NumberText :=
  let (negative, body) := match s with
    | '-' :: body => (true, body)
    | body => (false, body)
  let (whole, rest) := Numeral.leadingDigits body
  if whole.isEmpty || (whole.head? == some '0' && whole != ['0']) then none
  else
    match rest with
    | '.' :: rest => do
      let (fraction, rest) := Numeral.leadingDigits rest
      if fraction.isEmpty then none
      else return ⟨negative, whole, some fraction, ← readPower? rest⟩
    | rest => do return ⟨negative, whole, none, ← readPower? rest⟩

end NumberText

/-! ### Floats -/

/-- Takes digits into a significand of 64 bits, and counts those for which there is no room. -/
def collectWhole (significand : Nat) : List Char → Nat × Nat
  | [] => (significand, 0)
  | c :: rest =>
    let next := 10 * significand + Numeral.digitValue c
    -- From the first digit without room on, all count for their places only.
    if next < UInt64.size then collectWhole next rest else (significand, rest.length + 1)

/-- Takes digits after the point into a significand of 64 bits, as far as there is room, and
    counts those taken. -/
def collectFraction (significand : Nat) : List Char → Nat × Nat
  | [] => (significand, 0)
  | c :: rest =>
    let next := 10 * significand + Numeral.digitValue c
    if next < UInt64.size then
      let (result, taken) := collectFraction next rest
      (result, taken + 1)
    else (significand, 0)

/-- The float nearest to a power of ten up to `10 ^ 308`. -/
def powerOfTen (k : Nat) : Magnitude := (Magnitude.ofDecimal? 1 k).getD .zero

def divideRepeatedly (divisor : Magnitude) : Nat → Magnitude → Option Magnitude
  | 0, m => some m
  | times + 1, m =>
    if m.significand = 0 then some m else m.div? divisor >>= divideRepeatedly divisor times

/-- Divides by `10 ^ count`, by at most `10 ^ 308` at a time, for a positive count. -/
def divideByTens (m : Magnitude) (count : Nat) : Option Magnitude := do
  let times := (count - 1) / 308
  let quotient ← divideRepeatedly (powerOfTen 308) times m
  quotient.div? (powerOfTen (count - 308 * times))

/-- The float for `significand · 10 ^ exponent`; none when it is out of range. -/
def scaleByTens (significand : Nat) (exponent : Int) : Option Magnitude :=
  match Magnitude.ofRatio? significand 1 with
  | none => none
  | some m =>
    if m.significand = 0 then some m
    else if exponent < 0 then divideByTens m (-exponent).toNat
    else if exponent ≤ 308 then m.mul? (powerOfTen exponent.toNat)
    else none

/-- The magnitude of a number as a float; none when it is out of range.  An exponent of more than
    31 bits leaves zero or nothing in range. -/
def NumberText.magnitude? (n : NumberText) : Option Magnitude :=
  let (significand, dropped) := collectWhole 0 n.whole
  let (significand, taken) := collectFraction significand (n.fraction.getD [])
  let (negative, digits) := n.power.getD (false, [])
  let power := Numeral.value digits
  if Nat.pow 2 31 ≤ power then
    if significand = 0 || negative then some .zero else none
  else
    scaleByTens significand
      ((dropped : Int) - taken + if negative then -(power : Int) else power)

/-! ### Numbers -/

/-- The number that is written: an integer of 64 bits, signed or not, or a float. -/
def NumberText.toJson? (n : NumberText) : Option Json :=
  let whole := Numeral.value n.whole
  -- Zero with a minus is a float, since integers have one zero.
  let isWhole := n.fraction.isNone && n.power.isNone
  if isWhole && !n.negative && whole < UInt64.size then some (integer whole)
  else if isWhole && n.negative && 0 < whole && whole ≤ Nat.pow 2 63 then
    some (integer (-(whole : Int)))
  else n.magnitude?.map fun m => float (.finite n.negative m)

def readNumber? (s : List Char) : Option Json := NumberText.read? s >>= NumberText.toJson?

end RecordFilter.Json
