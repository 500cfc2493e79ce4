import RecordFilter.Json.Reading
import RecordFilter.Record
import RecordFilter.Value.Json
/-!
# Records in JSON

Records are read from an array of objects.  The members `id` and `parent` are the record's own; a
scalar member is a property, and an object gives a property `name.key` for each of its scalars.  A
record without an id is called by its place in the array.  Written out, a record is one flat
object.
-/

namespace RecordFilter

inductive LoadError where
  | notJson
  | notAnArray
  | notAnObject (index : Nat)
deriving DecidableEq, Repr

def LoadError.message : LoadError → String
  | notJson => "Invalid JSON"
  | notAnArray => "Invalid records: expected an array of objects"
  | notAnObject index => "Invalid records: record " ++ toString index ++ " is not an object"

namespace Record

/-- Stores a scalar under a name; arrays and objects are passed over. -/
def insertJson (r : Record) (name : String) (json : Json) : Record :=
  match Value.ofJson? json with
  | some value => r.insert name value
  | none => r

/-- Stores a member: an object one level deep, and any other value as a scalar. -/
def insertMember (r : Record) (member : String × Json) : Record :=
  match member.2 with
  | .object nested =>
    nested.foldl (fun r (key, json) => r.insertJson (member.1 ++ "." ++ key) json) r
  | json => r.insertJson member.1 json

/-- The id of a record at a place: a string as it is, any other value by its text. -/
def idOf (index : Nat) : Option Json → String
  | some (.string id) => id
  | some .null => "#" ++ toString index
  | some json => json.compact
  | none => "#" ++ toString index

def parentOf : Option Json → Option String
  | some (.string parent) => some parent
  | _ => none

def ofMembers (index : Nat) (members : List (String × Json)) : Record :=
  let own := fun (member : String × Json) => member.1 == "id" || member.1 == "parent"
  -- Own names are compared as they are written, other names once they are trimmed and folded.
  (members.filter fun member => !own member).foldl insertMember
    (ofId (idOf index (members.lookup "id")) (parentOf (members.lookup "parent")))

/-- The records of the items of an array, the first of which has the place `index`. -/
def ofItems (index : Nat) : List Json → Except LoadError (List Record)
  | [] => .ok []
  | .object members :: rest => do return ofMembers index members :: (← ofItems (index + 1) rest)
  | _ :: _ => .error (.notAnObject index)

def ofJson : Json → Except LoadError (List Record)
  | .array items => ofItems 0 items
  | _ => .error .notAnArray

def load (text : String) : Except LoadError (List Record) :=
  match Json.read? text with
  | some json => ofJson json
  | none => .error .notJson

def toJson (r : Record) : Json :=
  -- A property called like an own member comes later and replaces it.
  .ofMembers
    (("id", .string r.id) ::
      ((r.parent.map fun parent => ("parent", Json.string parent)).toList ++
        r.shownProperties.map fun (name, value) => (name, value.toJson)))

end Record

end RecordFilter
