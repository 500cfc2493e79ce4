import RecordFilter.Binary64.Text
import RecordFilter.ColumnType
import RecordFilter.Instant
/-!
# Property values

A value is null or belongs to one column type.  This module holds the values and the text that
shows them; `RecordFilter.Value.Order` compares them and `RecordFilter.Value.Literal` reads them.
-/

namespace RecordFilter

inductive Value where
  /-- No value: what a record has for a property it does not carry. -/
  | null
  | text (s : String)
  | integer (n : Int64)
  | float (x : Binary64)
  | dateTime (t : Instant)
  | boolean (b : Bool)
  | columnType (type : ColumnType)
deriving DecidableEq

namespace Value

def type? : Value → Option ColumnType
  | null => none
  | text _ => some .text
  | integer _ => some .integer
  | float _ => some .float
  | dateTime _ => some .dateTime
  | boolean _ => some .boolean
  | columnType _ => some .columnType

def isNull : Value → Bool
  | null => true
  | _ => false

def folded? : Value → Option String
  | text s => some (Text.fold s)
  | _ => none

def shown : Value → String
  | null => "NULL"
  | text s => s
  | integer n => toString n.toInt
  | float x => x.shown
  | dateTime t => t.shown
  | boolean b => if b then "true" else "false"
  | columnType type => type.name

end Value

end RecordFilter
