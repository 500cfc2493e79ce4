import RecordFilter.Instant.Reading
import RecordFilter.Value
/-!
# Literals

A literal in a filter is text; it becomes a value of the type of the column it is compared with.
-/

namespace RecordFilter

structure LiteralError where
  text : String
  expected : ColumnType
deriving DecidableEq, Repr

def LiteralError.message (e : LiteralError) : String :=
  "Invalid value: cannot convert '" ++ e.text ++ "' to " ++ e.expected.name

namespace Value

def readBoolean? (s : String) : Option Bool :=
  match Text.fold s with
  | "true" => some true
  | "false" => some false
  | _ => none

/-- Reads a value of a type.  A text is taken as it is; for all other types white space around
    the literal does not count.  Infinities and NaN are not literals. -/
def read? (s : String) : ColumnType → Option Value
  | .text => some (text s)
  | .integer => (Numeral.readInt64? (Text.trim s.toList)).map integer
  | .float => ((Binary64.read? (Text.trim s.toList)).filter Binary64.isFinite).map float
  | .dateTime => (Instant.read? (Text.trim s.toList)).map dateTime
  | .boolean => (readBoolean? s).map boolean
  | .columnType => (ColumnType.ofName? s).map columnType

def ofLiteral (s : String) (type : ColumnType) : Except LiteralError Value :=
  match read? s type with
  | some value => .ok value
  | none => .error ⟨s, type⟩

end Value

end RecordFilter
