import RecordFilter.Decimal96
import RecordFilter.Value
/-!
# Comparing values

Null compares with nothing.  Two texts compare in folded form, and two values of one type in the
order of that type; an integer and a float compare as numbers.  All other pairs, and a pair with a
NaN in it, compare by the texts that show them.  Two values are equal when they compare as equal,
so null does not equal itself.
-/

namespace RecordFilter.Value

/-- An integer against a float: exactly when the float has a decimal form, and otherwise rounded
    to a float. -/
def compareNumbers (n : Int64) (x : Binary64) : Option Ordering :=
  -- In base ten 0.1 is one tenth, which it is not as a float.
  match Decimal96.ofBinary64? x with
  | some d => some (Decimal96.compareInt n.toInt d)
  | none => (Binary64.ofInt n.toInt).compare? x

/-- The order of the values' own types, where they have one in common. -/
def naturalOrder (a b : Value) : Option Ordering :=
  match a, b with
  | integer m, integer n => some (Ord.compare m.toInt n.toInt)
  | float x, float y => x.compare? y
  | integer n, float x => compareNumbers n x
  | float x, integer n => (compareNumbers n x).map Ordering.swap
  | dateTime s, dateTime t => some (s.compare t)
  | boolean p, boolean q => some (Ord.compare p q)
  | columnType s, columnType t => some (Ord.compare s.name t.name)
  | _, _ => none

/-- How two values compare; null compares with nothing. -/
def compare (a b : Value) : Option Ordering :=
  if a.isNull || b.isNull then none
  else
    -- Texts have no other order: letter case and outer white space do not count.
    match a.folded?, b.folded? with
    | some s, some t => some (Ord.compare s t)
    | _, _ => some ((naturalOrder a b).getD (Ord.compare a.shown b.shown))

def equals (a b : Value) : Bool := compare a b == some .eq

/-- Whether a text begins with another, in any letter case; values that are not texts do not. -/
def startsWith : Value → Value → Bool
  | text s, text pattern => Text.startsWith (Text.lowercase s) (Text.lowercase pattern)
  | _, _ => false

def endsWith : Value → Value → Bool
  | text s, text pattern => Text.endsWith (Text.lowercase s) (Text.lowercase pattern)
  | _, _ => false

def contains : Value → Value → Bool
  | text s, text pattern => Text.contains (Text.lowercase s) (Text.lowercase pattern)
  | _, _ => false

end RecordFilter.Value
