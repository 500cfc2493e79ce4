import RecordFilter.ColumnType
import RecordFilter.Dictionary
/-!
# Schemas

A schema holds the known columns.  A column has a short name and belongs to a namespace, as in
`exif.iso`, or stands on its own, as in `length`.  Columns are only ever added.

The schema keeps two indexes, both by folded names: the columns by their qualified names, and for
every short name the namespaces that own a column of that name.
-/

namespace RecordFilter

structure Column where
  /-- The qualified name, in the letter case it was given in. -/
  name : String
  type : ColumnType
deriving DecidableEq, Repr

structure Schema where
  /-- Folded qualified names and their columns. -/
  columns : Dictionary Column
  /-- Folded short names and the namespaces that own them, in ascending order. -/
  owners : Dictionary (List String)

namespace Schema

def empty : Schema := ⟨.empty, .empty⟩

/-- The qualified name of a column; the empty namespace adds nothing. -/
def qualify (space short : String) : String :=
  if space.isEmpty then short else space ++ "." ++ short

@[simp] theorem qualify_empty (short : String) : qualify "" short = short := rfl

theorem qualify_of_ne {space : String} (h : space ≠ "") (short : String) :
    qualify space short = space ++ "." ++ short := by
  simp [qualify, h]

def insertName (name : String) : List String → List String
  | [] => [name]
  | n :: rest => if name ≤ n then name :: n :: rest else n :: insertName name rest

/-- Adds a column, unless its short name is blank or its qualified name is known.  The answer tells
    whether it was added. -/
def register (s : Schema) (space short : String) (type : ColumnType) : Schema × Bool :=
  let space := Text.trimmed space
  let short := Text.trimmed short
  let name := qualify space short
  -- Two spellings of one name are one column, and the first spelling stays.
  let key := Text.fold name
  if short.isEmpty || s.columns.contains key then (s, false)
  else
    let shortKey := Text.fold short
    let owners := insertName space ((s.owners.find? shortKey).getD [])
    -- A namespace is listed once for every column it owns under the short name.
    (⟨s.columns.insert key ⟨name, type⟩, s.owners.insert shortKey owners⟩, true)

def contains (s : Schema) (name : String) : Bool := s.columns.contains (Text.fold name)

/-- The columns in the order of their folded names whose folded names have the text in them. -/
def matching (s : Schema) (text : String) : List Column :=
  (s.columns.entries.filter fun entry => Text.contains entry.1 (Text.fold text)).map Prod.snd

end Schema

end RecordFilter
