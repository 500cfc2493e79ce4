import RecordFilter.Binary64
/-!
# Decimals with a 96-bit coefficient

A `Decimal96` is `± coefficient / 10 ^ places` with a coefficient below `2 ^ 96` and at most 28
places.  It is the form in which a double-precision number is compared with an integer
(`Decimal96.ofBinary64?`): the number is brought to base ten and rounded there to about sixteen
digits, so that `0.1` compares as one tenth and not as the nearest sum of powers of two.

A magnitude `m · 2 ^ e` is `m · 5 ^ (-e) · 10 ^ e`.  The factors of five are worked into the
coefficient one at a time, and a factor ten that does not fit goes into the power of ten.
-/

namespace RecordFilter

/-- The number `± coefficient / 10 ^ places`. -/
structure Decimal96 where
  negative : Bool
  coefficient : Nat
  places : Nat
deriving DecidableEq, Repr

namespace Decimal96

/-- Multiplies `bits · 10 ^ tens` by five, `count` times.  When `5 · bits` is even, or does not fit
    in 96 bits, the product is written as `bits / 2` tens instead. -/
def timesFives : Nat → Nat → Int → Nat × Int
  | 0, bits, tens => (bits, tens)
  | count + 1, bits, tens =>
    if bits % 2 = 1 && bits * 5 < Nat.pow 2 96 then timesFives count (bits * 5) tens
    else timesFives count (bits / 2) (tens + 1)

/-- Divides `bits · 10 ^ tens` by five, `count` times: as two tenths while there is room for
    the doubling, and then by dropping the remainder.  It gives up when the power of ten is too
    great for what is left to divide. -/
def overFives : Nat → Nat → Int → Option (Nat × Int)
  | 0, bits, tens => some (bits, tens)
  | count + 1, bits, tens =>
    if bits < Nat.pow 2 95 then overFives count (bits * 2) (tens - 1)
    else if tens * 2 > (count : Int) + 1 then none
    else overFives count (bits / 5) tens

def timesTens : Nat → Nat → Option Nat
  | 0, bits => some bits
  | count + 1, bits => if bits * 10 < Nat.pow 2 96 then timesTens count (bits * 10) else none

/-- Drops the last digit, rounding a half up. -/
def dropDigit (bits : Nat) : Nat := bits / 10 + if bits % 10 < 5 then 0 else 1

/-- Drops `count` of the last places; a number without digits left is zero. -/
def dropPlaces : Nat → Nat → Nat → Nat × Nat
  | 0, bits, places => (bits, places)
  | count + 1, bits, places =>
    if bits / 10 = 0 then (0, 0) else dropPlaces count (dropDigit bits) (places - 1)

def shorten : Nat → Nat → Nat × Nat
  | bits, 0 => (bits, 0)
  | bits, places + 1 =>
    if bits < Nat.pow 2 52 then (bits, places + 1) else shorten (dropDigit bits) places

def ofMagnitude? (m : Magnitude) : Option (Nat × Nat) := do
  -- Only one of the two loops runs, as the exponent is negative or not.
  let (bits, tens) := timesFives (-m.exponent).toNat m.significand m.exponent
  let (bits, tens) ← overFives m.exponent.toNat bits tens
  let bits ← timesTens tens.toNat bits
  let (bits, places) := dropPlaces (-28 - tens).toNat bits (-tens).toNat
  return shorten bits places

/-- The decimal that stands for a number in comparisons with integers, if there is one. -/
def ofBinary64? : Binary64 → Option Decimal96
  | .finite negative m =>
    if m.significand = 0 then some ⟨negative, 0, 0⟩
    else (ofMagnitude? m).map fun (bits, places) => ⟨negative, bits, places⟩
  | _ => none

def compareInt (n : Int) (d : Decimal96) : Ordering :=
  let numerator : Int := if d.negative then -(d.coefficient : Int) else d.coefficient
  compare (n * (Nat.pow 10 d.places : Int)) numerator

end Decimal96

end RecordFilter
