import RecordFilter.Text.Fold
/-!
# Column types

The declared type of a property.  A type is named in any letter case, and some have a short name.
-/

namespace RecordFilter

inductive ColumnType where
  | text
  | integer
  | float
  | dateTime
  | boolean
  /-- The column's values are themselves column types. -/
  | columnType
deriving DecidableEq, Repr

namespace ColumnType

def name : ColumnType → String
  | text => "String"
  | integer => "Integer"
  | float => "Float"
  | dateTime => "DateTime"
  | boolean => "Boolean"
  | columnType => "Type"

/-- All names a type is read from, in folded form. -/
def names : List (String × ColumnType) :=
  [("string", text), ("integer", integer), ("int", integer), ("float", float), ("double", float),
   ("datetime", dateTime), ("date", dateTime), ("boolean", boolean), ("bool", boolean),
   ("type", columnType)]

def ofName? (name : String) : Option ColumnType := names.lookup (Text.fold name)

end ColumnType

end RecordFilter
