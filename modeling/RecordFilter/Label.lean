import RecordFilter.Operator
/-!
# Labels

A label describes a compiled filter for the reader.  It is written like the filter itself, with
parentheses around every operator.  The columns a filter needs, and the filters it was added to,
are written only on demand.
-/

namespace RecordFilter

inductive Label where
  | binary (op : Operator) (left right : Label)
  | column (name : String)
  /-- A constant, with the type of the column it stands next to. -/
  | constant (value : Value) (type : Option ColumnType)
  /-- A part with the columns that must have a value. -/
  | guard (columns : List String) (inner : Label)
  /-- A filter that was active when another was added. -/
  | previous (inner : Label)
deriving DecidableEq

namespace Label

/-- The text of a constant; null is described by the type it takes the place of. -/
def constantText (value : Value) (type : Option ColumnType) : String :=
  match value, type with
  | .null, some type => "[default(" ++ type.name ++ ")]"
  | .null, none => "<null>"
  | value, _ => value.shown

/-- The text of a label, with or without guards and earlier filters. -/
def text (showGuards : Bool) : Label → String
  | binary op left right =>
    "(" ++ left.text showGuards ++ " " ++ op.symbol ++ " " ++ right.text showGuards ++ ")"
  | column name => "\"" ++ name ++ "\""
  | constant value type => constantText value type
  | guard columns inner =>
    if showGuards && !columns.isEmpty then
      "guard[" ++ ", ".intercalate columns ++ "] " ++ inner.text showGuards
    else inner.text showGuards
  | previous inner =>
    if showGuards then "previous(" ++ inner.text showGuards ++ ")" else inner.text showGuards

end Label

end RecordFilter
