import RecordFilter.Binary64
import RecordFilter.Numeral
/-!
# Decimal forms of double-precision numbers

`Magnitude.ofDecimal?` reads a decimal `digits · 10 ^ exponent`, correctly rounded.
`Magnitude.shortest` goes the other way: it finds the fewest decimal digits that read back as the
magnitude, and of these the nearest.  It looks at ever finer decimal grids, and on each grid only
at the two neighbours of the magnitude: if any point of the grid reads back, one of them does.
-/

namespace RecordFilter

/-- The decimal `digits · 10 ^ exponent`. -/
structure DecimalForm where
  digits : Nat
  exponent : Int
deriving DecidableEq, Repr

namespace DecimalForm

def stripZeros (d : DecimalForm) : DecimalForm :=
  if h : d.digits ≠ 0 ∧ d.digits % 10 = 0 then
    stripZeros ⟨d.digits / 10, d.exponent + 1⟩
  else d
termination_by d.digits
decreasing_by exact Nat.div_lt_self (Nat.pos_of_ne_zero h.1) (by decide)

end DecimalForm

namespace Magnitude

/-- The magnitude nearest to `digits · 10 ^ exponent`; none when it is out of range.  Decimals far
    out of range are told apart by their sizes alone, so no huge power is formed for them. -/
def ofDecimal? (digits : Nat) (exponent : Int) : Option Magnitude :=
  if digits = 0 then some zero
  else if 309 ≤ exponent then none
  else if (digits.log2 : Int) + 1 + 3 * exponent ≤ -1075 then some zero
  else ofRatio? (digits * Nat.pow 10 exponent.toNat) (Nat.pow 10 (-exponent).toNat)

/-- The greatest `k` with `10 ^ k ≤ m`, for a positive magnitude `m`. -/
def floorLog10 (m : Magnitude) : Int :=
  let (num, den) := m.ratio
  if den ≤ num then (Numeral.width (num / den) : Int) - 1
  else -(Numeral.width ((den - 1) / num) : Int)

/-- The point nearest to `m` on the grid of multiples of `10 ^ exponent` among those that read
    back as `m`, if there is one.  Of two that are equally near, `tieUp` takes the greater one and
    otherwise the even one is taken. -/
def nearestOnGrid? (tieUp : Bool) (m : Magnitude) (exponent : Int) : Option Nat :=
  let num := m.ratio.1 * Nat.pow 10 (-exponent).toNat
  let den := m.ratio.2 * Nat.pow 10 exponent.toNat
  let below := num / den
  let rest := num % den
  let readsBack (digits : Nat) : Bool := ofDecimal? digits exponent == some m
  let belowIsNearer :=
    2 * rest < den || (2 * rest == den && !tieUp && below % 2 == 0)
  -- A neighbour that reads back as another magnitude is no candidate, however near it is.
  match readsBack below, readsBack (below + 1) with
  | true, true => some (if belowIsNearer then below else below + 1)
  | true, false => some below
  | false, true => some (below + 1)
  | false, false => none

/-- All decimal digits of a magnitude: `2 ^ -k` is `5 ^ k · 10 ^ -k`. -/
def exactDecimal (m : Magnitude) : DecimalForm :=
  if 0 ≤ m.exponent then ⟨m.significand * Nat.pow 2 m.exponent.toNat, 0⟩
  else ⟨m.significand * Nat.pow 5 (-m.exponent).toNat, m.exponent⟩

/-- The decimal with the fewest digits that reads back as `m`, the nearest of these.  Seventeen
    digits are always enough. -/
def shortest (tieUp : Bool) (m : Magnitude) : DecimalForm :=
  let lead := m.floorLog10
  let found := (List.range 17).findSome? fun (finer : Nat) =>
    (nearestOnGrid? tieUp m (lead - finer)).map fun digits => DecimalForm.mk digits (lead - finer)
  if m.significand = 0 then ⟨0, 0⟩ else (found.getD m.exactDecimal).stripZeros

end Magnitude

end RecordFilter
