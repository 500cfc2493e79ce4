/-!
# Decimal numerals

Digits of whole numbers, and the reader for 64-bit integers.  Only the ASCII digits count.
-/

namespace RecordFilter.Numeral

def digitValue (c : Char) : Nat := c.toNat - '0'.toNat

/-- The number a row of digits stands for, the most significant one first. -/
def value (digits : List Char) : Nat := digits.foldl (fun n c => 10 * n + digitValue c) 0

/-- The digits of a number, the most significant one first, without leading zeros. -/
def digits (n : Nat) : List Char := Nat.toDigits 10 n

def width (n : Nat) : Nat := (digits n).length

/-- The digits of a number, with zeros in front up to a width. -/
def padded (n : Nat) (width : Nat) : List Char :=
  List.replicate (width - (digits n).length) '0' ++ digits n

def leadingDigits (s : List Char) : List Char × List Char :=
  (s.takeWhile Char.isDigit, s.dropWhile Char.isDigit)

def int64? (n : Int) : Option Int64 :=
  if Int64.minValue.toInt ≤ n ∧ n ≤ Int64.maxValue.toInt then some (Int64.ofInt n) else none

/-- Splits off a sign; the answer is whether it was a minus. -/
def sign : List Char → Bool × List Char
  | '-' :: rest => (true, rest)
  | '+' :: rest => (false, rest)
  | s => (false, s)

/-- Reads a 64-bit integer: an optional sign and then digits only. -/
def readInt64? (s : List Char) : Option Int64 :=
  let (negative, body) := sign s
  if body.isEmpty || !body.all Char.isDigit then none
  else int64? (if negative then -(value body : Int) else value body)

end RecordFilter.Numeral
