/-!
# Double-precision numbers

A number of the format is a NaN, an infinity, or a sign with a magnitude
`significand · 2 ^ exponent`.  Every magnitude has one representation (`Magnitude` holds the
invariant), so two numbers are the same bits exactly when they are equal here, the NaNs counted
as one.

Numbers are compared as integers: every magnitude is a whole multiple of `2 ^ -1074`, and the
infinities rank as `± 2 ^ 1024`, the first power of two out of range.  Results of arithmetic are
rounded to the nearest number, a tie to the even significand (`Magnitude.ofRatio?`).
-/

namespace RecordFilter

/-- A finite magnitude `significand · 2 ^ exponent`.  The significand has 53 bits, or fewer at the
    least exponent only. -/
structure Magnitude where
  significand : Nat
  exponent : Int
  significand_lt : significand < Nat.pow 2 53
  exponent_ge : -1074 ≤ exponent
  exponent_le : exponent ≤ 971
  full_or_least : Nat.pow 2 52 ≤ significand ∨ exponent = -1074
deriving DecidableEq, Repr

inductive Binary64 where
  | nan
  | infinite (negative : Bool)
  | finite (negative : Bool) (magnitude : Magnitude)
deriving DecidableEq, Repr

/-! ### Rounding -/

/-- The whole number nearest to `num / den`, the even one of two that are equally near. -/
def roundHalfEven (num den : Nat) : Nat :=
  let whole := num / den
  let rest := num % den
  if 2 * rest < den then whole
  else if den < 2 * rest then whole + 1
  else whole + whole % 2

/-- The greatest `k` with `2 ^ k ≤ num / den`, for positive `num` and `den`. -/
def floorLog2 (num den : Nat) : Int :=
  -- The lengths of the two numbers give the logarithm, or one more than it.
  let k : Int := (num.log2 : Int) - den.log2
  if den * Nat.pow 2 k.toNat ≤ num * Nat.pow 2 (-k).toNat then k else k - 1

namespace Magnitude

def zero : Magnitude := ⟨0, -1074, by decide, by decide, by decide, .inr rfl⟩

def of? (significand : Nat) (exponent : Int) : Option Magnitude :=
  if h : significand < Nat.pow 2 53 ∧ -1074 ≤ exponent ∧ exponent ≤ 971 ∧
      (Nat.pow 2 52 ≤ significand ∨ exponent = -1074) then
    some ⟨significand, exponent, h.1, h.2.1, h.2.2.1, h.2.2.2⟩
  else none

/-- The magnitude nearest to `num / den`, a tie to the even significand; none when it is out of
    range.  The exponent is the one that leaves 53 bits for the significand. -/
def ofRatio? (num den : Nat) : Option Magnitude :=
  if num = 0 then some zero
  else
    let exponent := max (-1074) (floorLog2 num den - 52)
    let significand :=
      roundHalfEven (num * Nat.pow 2 (-exponent).toNat) (den * Nat.pow 2 exponent.toNat)
    -- Rounded up to a power of two, the significand has one bit too many.
    if significand = Nat.pow 2 53 then of? (Nat.pow 2 52) (exponent + 1)
    else of? significand exponent

def ratio (m : Magnitude) : Nat × Nat :=
  (m.significand * Nat.pow 2 m.exponent.toNat, Nat.pow 2 (-m.exponent).toNat)

/-- The magnitude in units of `2 ^ -1074`, the least positive magnitude. -/
def units (m : Magnitude) : Nat := m.significand * Nat.pow 2 (m.exponent + 1074).toNat

/-- The product of two magnitudes, rounded once; none when it is out of range. -/
def mul? (x y : Magnitude) : Option Magnitude :=
  ofRatio? (x.ratio.1 * y.ratio.1) (x.ratio.2 * y.ratio.2)

def div? (x y : Magnitude) : Option Magnitude :=
  ofRatio? (x.ratio.1 * y.ratio.2) (x.ratio.2 * y.ratio.1)

end Magnitude

namespace Binary64

/-- The number nearest to `± num / den`; an infinity when it is out of range. -/
def ofRatio (negative : Bool) (num den : Nat) : Binary64 :=
  match Magnitude.ofRatio? num den with
  | some m => finite negative m
  | none => infinite negative

def ofInt (n : Int) : Binary64 := ofRatio (decide (n < 0)) n.natAbs 1

def isFinite : Binary64 → Bool
  | finite .. => true
  | _ => false

/-! ### Order -/

/-- The place of a number in the order of all numbers but NaN, in units of `2 ^ -1074`. -/
def rank : Binary64 → Option Int
  | nan => none
  | infinite negative => some (if negative then -(Nat.pow 2 2098 : Int) else Nat.pow 2 2098)
  | finite negative m => some (if negative then -(m.units : Int) else m.units)

def compare? (x y : Binary64) : Option Ordering := do
  return compare (← x.rank) (← y.rank)

end Binary64

end RecordFilter
