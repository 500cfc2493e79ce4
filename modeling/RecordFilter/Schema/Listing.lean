import RecordFilter.Schema
/-!
# Listing columns

One line for every column, with the types aligned.
-/

namespace RecordFilter.Schema

def listingLine (width : Nat) (column : Column) : String :=
  column.name ++ String.ofList (List.replicate (width - column.name.length) ' ') ++ "  " ++
    column.type.name ++ "\n"

def listing (s : Schema) (text : Option String) : String :=
  let columns := match text with
    | some text => s.matching text
    | none => s.columns.values
  if columns.isEmpty then
    match text with
    | some text => "No properties match '" ++ text ++ "'\n"
    | none => "No properties\n"
  else
    let width := (columns.map fun column => column.name.length).foldl max 0
    String.join (columns.map (listingLine width))

end RecordFilter.Schema
