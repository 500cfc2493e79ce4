import RecordFilter.Label
import RecordFilter.Record
/-!
# Filters

A filter is a condition on the properties of a record, with a label that describes it.  Whether a
condition holds is always defined; a record that lacks a column which the filter reads does not
match.
-/

namespace RecordFilter

inductive Operand where
  | property (name : String)
  | constant (value : Value)
deriving DecidableEq

def Operand.value (properties : Properties) : Operand → Value
  | property name => properties name
  | constant value => value

inductive Condition where
  | compare (op : Comparison) (left right : Operand)
  | test (op : TextTest) (left right : Operand)
  /-- The property is true. -/
  | isTrue (name : String)
  | connect (op : Connective) (left right : Condition)
  /-- None of the properties is null, and the inner condition holds. -/
  | guard (names : List String) (inner : Condition)
deriving DecidableEq

def Condition.holds (properties : Properties) : Condition → Bool
  | compare op left right => op.holds (left.value properties) (right.value properties)
  | test op left right => op.holds (left.value properties) (right.value properties)
  | isTrue name => properties name == .boolean true
  | connect op left right => op.apply (left.holds properties) (right.holds properties)
  | guard names inner => names.all (fun name => !(properties name).isNull) && inner.holds properties

structure Filter where
  condition : Condition
  label : Label
  /-- The columns that a record must carry to match. -/
  columns : List String
deriving DecidableEq

namespace Filter

def accepts (f : Filter) (properties : Properties) : Bool := f.condition.holds properties

def text (f : Filter) : String := f.label.text false

/-- The filter with the columns it needs and the filters it was added to. -/
def explanation (f : Filter) : String := f.label.text true

/-- The names of two lists, each once, in the order in which they come first. -/
def mergeColumns (columns more : List String) : List String :=
  more.foldl (fun merged name => if merged.contains name then merged else merged ++ [name]) columns

def narrow (previous next : Filter) : Filter :=
  ⟨.connect .and previous.condition next.condition,
    .binary (.connective .and) (.previous previous.label) next.label,
    mergeColumns previous.columns next.columns⟩

end Filter

end RecordFilter
