import RecordFilter.Value.Order
/-!
# Operators

Three kinds of operators stand in a filter: connectives join conditions, comparisons order two
values, and text tests look for one text in another.
-/

namespace RecordFilter

inductive Connective where
  | and
  | or
deriving DecidableEq, Repr

inductive Comparison where
  | equal
  | notEqual
  | less
  | lessEqual
  | greater
  | greaterEqual
deriving DecidableEq, Repr

inductive TextTest where
  | startsWith
  | endsWith
  | contains
deriving DecidableEq, Repr

inductive Operator where
  | connective (op : Connective)
  | comparison (op : Comparison)
  | textTest (op : TextTest)
deriving DecidableEq, Repr

namespace Connective

def symbol : Connective → String
  | and => "&&"
  | or => "||"

def apply : Connective → Bool → Bool → Bool
  | and, p, q => p && q
  | or, p, q => p || q

end Connective

namespace Comparison

def symbol : Comparison → String
  | equal => "=="
  | notEqual => "!="
  | less => "<"
  | lessEqual => "<="
  | greater => ">"
  | greaterEqual => ">="

/-- Whether the comparison accepts the way in which two values compare.  Values that do not
    compare at all are unequal, and nothing else. -/
def accepts : Comparison → Option Ordering → Bool
  | equal, order => order == some .eq
  | notEqual, order => order != some .eq
  | less, order => order == some .lt
  | lessEqual, order => order == some .lt || order == some .eq
  | greater, order => order == some .gt
  | greaterEqual, order => order == some .gt || order == some .eq

def holds (op : Comparison) (a b : Value) : Bool := op.accepts (a.compare b)

end Comparison

namespace TextTest

def symbol : TextTest → String
  | startsWith => "startswith"
  | endsWith => "endswith"
  | contains => "contains"

def holds : TextTest → Value → Value → Bool
  | startsWith, a, b => a.startsWith b
  | endsWith, a, b => a.endsWith b
  | contains, a, b => a.contains b

end TextTest

namespace Operator

def symbol : Operator → String
  | connective op => op.symbol
  | comparison op => op.symbol
  | textTest op => op.symbol

def all : List Operator :=
  [connective .and, connective .or, comparison .equal, comparison .notEqual, comparison .less,
   comparison .lessEqual, comparison .greater, comparison .greaterEqual, textTest .startsWith,
   textTest .endsWith, textTest .contains]

def ofSymbol? (s : String) : Option Operator := all.find? fun op => op.symbol == s

/-- Every operator is read back from its symbol. -/
theorem ofSymbol?_symbol (op : Operator) : ofSymbol? op.symbol = some op := by
  cases op with
  | connective op => cases op <;> decide +kernel
  | comparison op => cases op <;> decide +kernel
  | textTest op => cases op <;> decide +kernel

theorem ofSymbol?_eq_some_iff {s : String} {op : Operator} :
    ofSymbol? s = some op ↔ s = op.symbol := by
  constructor
  · intro h
    unfold ofSymbol? at h
    have hsymbol := List.find?_some h
    exact (beq_iff_eq.mp hsymbol).symm
  · rintro rfl
    exact ofSymbol?_symbol op

end Operator

end RecordFilter
