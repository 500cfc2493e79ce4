import RecordFilter.Instant.Reading
import RecordFilter.Json
import RecordFilter.Value
/-!
# Values in JSON

Numbers, booleans, null and strings have values; a string that reads as a complete date-time is an
instant.  Arrays and objects have none.
-/

namespace RecordFilter.Value

def ofJson? : Json → Option Value
  | .null => some null
  | .boolean b => some (boolean b)
  | .integer n =>
    some (match Numeral.int64? n with
      | some i => integer i
      | none => float (Binary64.ofInt n))
  | .float x => some (float x)
  | .string s =>
    some (match Instant.readInternet? s.toList with
      | some t => dateTime t
      | none => text s)
  | .array _ => none
  | .object _ => none

def toJson : Value → Json
  | null => .null
  | text s => .string s
  | integer n => .integer n.toInt
  | float x => if x.isFinite then .float x else .null
  | dateTime t => .string t.internetText
  | boolean b => .boolean b
  | columnType type => .string type.name

end RecordFilter.Value
