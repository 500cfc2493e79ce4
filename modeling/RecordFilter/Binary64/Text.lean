import RecordFilter.Binary64.Decimal
/-!
# Texts of double-precision numbers

Reading takes an optional sign and a decimal with an optional point and exponent, or the names of
the infinities and of NaN.  Writing uses the shortest digits that read back; a `FloatStyle` says
when they are written without an exponent and what else the text shows.
-/

namespace RecordFilter

structure FloatStyle where
  /-- Whether a number whose leading digit counts `10 ^ x` is written without an exponent. -/
  isPlain : Int → Bool
  /-- What follows the digits of a whole number. -/
  wholeEnd : String
  /-- Of two shortest decimals equally near, whether the greater one is taken, or the even one. -/
  tieUp : Bool

namespace DecimalForm

def plainText (d : DecimalForm) (wholeEnd : String) : List Char :=
  let digits := Numeral.digits d.digits
  if 0 ≤ d.exponent then digits ++ List.replicate d.exponent.toNat '0' ++ wholeEnd.toList
  else
    let places := (-d.exponent).toNat
    -- At least one digit is left in front of the point.
    let padded := Numeral.padded d.digits (places + 1)
    padded.take (padded.length - places) ++ '.' :: padded.drop (padded.length - places)

/-- One digit before the point, and the power of ten written after an `e` with its sign. -/
def exponentText (d : DecimalForm) : List Char :=
  let digits := Numeral.digits d.digits
  let power := d.exponent + (digits.length - 1 : Nat)
  let fraction := if digits.length ≤ 1 then [] else '.' :: digits.drop 1
  digits.take 1 ++ fraction ++ 'e' :: (if power < 0 then '-' else '+') ::
    Numeral.digits power.natAbs

end DecimalForm

namespace Binary64

def magnitudeText (style : FloatStyle) (m : Magnitude) : List Char :=
  let d := m.shortest style.tieUp
  if style.isPlain (d.exponent + (Numeral.width d.digits - 1 : Nat)) then d.plainText style.wholeEnd
  else d.exponentText

def text (style : FloatStyle) (x : Binary64) : String :=
  match x with
  | nan => "NaN"
  | infinite negative => if negative then "-inf" else "inf"
  | finite negative m =>
    String.ofList (if negative then '-' :: magnitudeText style m else magnitudeText style m)

/-- Shown numbers have no exponent and no point unless they have a fraction. -/
def shownStyle : FloatStyle := ⟨fun _ => true, "", true⟩

def shown (x : Binary64) : String := x.text shownStyle

/-! ### Reading -/

def readExponent? : List Char → Option Int
  | [] => some 0
  | c :: rest =>
    if c = 'e' || c = 'E' then
      let (negative, digits) := Numeral.sign rest
      if digits.isEmpty || !digits.all Char.isDigit then none
      else some (if negative then -(Numeral.value digits : Int) else Numeral.value digits)
    else none

/-- Reads a decimal without a sign: digits with an optional point among or around them, and an
    optional exponent. -/
def readDecimal? (s : List Char) : Option DecimalForm :=
  let (whole, rest) := Numeral.leadingDigits s
  let (fraction, rest) :=
    match rest with
    | '.' :: rest => Numeral.leadingDigits rest
    | rest => ([], rest)
  if whole.isEmpty && fraction.isEmpty then none
  else do
    let power ← readExponent? rest
    return ⟨Numeral.value (whole ++ fraction), power - fraction.length⟩

def ofDecimal (negative : Bool) (d : DecimalForm) : Binary64 :=
  match Magnitude.ofDecimal? d.digits d.exponent with
  | some m => finite negative m
  | none => infinite negative

/-- Reads a number: an optional sign, then a decimal, `inf`, `infinity` or `nan` in any case. -/
def read? (s : List Char) : Option Binary64 :=
  let (negative, body) := Numeral.sign s
  let word := String.ofList (body.map Char.toLower)
  if word = "inf" || word = "infinity" then some (infinite negative)
  else if word = "nan" then some nan
  else (readDecimal? body).map (ofDecimal negative)

end Binary64

end RecordFilter
