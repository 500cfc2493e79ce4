import RecordFilter.Dictionary
import RecordFilter.Value
/-!
# Records

A record is a file or a directory with the properties collected for it.  A property is found under
its name in any letter case; the name it was given is kept to show it.
-/

namespace RecordFilter

/-- What a filter is evaluated on: a value for every property name. -/
abbrev Properties := String → Value

structure Record where
  id : String
  parent : Option String
  /-- Folded names, with the names as given and the values. -/
  properties : Dictionary (String × Value)
deriving DecidableEq

namespace Record

def ofId (id : String) (parent : Option String) : Record := ⟨id, parent, .empty⟩

def stored? (r : Record) (name : String) : Option Value :=
  (r.properties.find? (Text.fold name)).map Prod.snd

/-- The value of a property; null when the record does not carry it. -/
def property (r : Record) : Properties := fun name => (r.stored? name).getD .null

def insert (r : Record) (name : String) (value : Value) : Record :=
  { r with properties := r.properties.insert (Text.fold name) (Text.trimmed name, value) }

/-- The properties with the names they are shown by, in the order of their folded names. -/
def shownProperties (r : Record) : List (String × Value) := r.properties.values

end Record

end RecordFilter
