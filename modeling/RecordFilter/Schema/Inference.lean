import RecordFilter.Record
import RecordFilter.Schema
/-!
# The schema of a list of records

Every property that some record carries with a value becomes a column.  Its type, and the letter
case of its name, are those of the first such record.  The part of a name before its first dot is
the namespace.
-/

namespace RecordFilter.Schema

/-- Notes the name and the type of a property, unless its folded name is known already or the
    value is null. -/
def noteProperty (samples : Dictionary (String × ColumnType)) (property : String × Value) :
    Dictionary (String × ColumnType) :=
  match property.2.type? with
  | none => samples
  | some type =>
    -- The first record decides, also about the letter case of the name.
    let key := Text.fold property.1
    if samples.contains key then samples else samples.insert key (property.1, type)

/-- The names and types of all properties with values, from the first record that has each. -/
def samples (records : List Record) : Dictionary (String × ColumnType) :=
  (records.flatMap Record.shownProperties).foldl noteProperty .empty

/-- Namespace and short name: what stands before and after the first dot. -/
def splitName (name : String) : String × String :=
  match name.toList.dropWhile (· != '.') with
  | [] => ("", name)
  | _ :: short => (String.ofList (name.toList.takeWhile (· != '.')), String.ofList short)

def registerSample (s : Schema) (sample : String × ColumnType) : Schema :=
  let (space, short) := splitName sample.1
  (s.register space short sample.2).1

def infer (records : List Record) : Schema :=
  (samples records).values.foldl registerSample .empty

end RecordFilter.Schema
