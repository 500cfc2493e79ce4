import RecordFilter.Schema
/-!
# Finding a column by a short form of its name

A column is found under its qualified name, under its short name when one namespace owns it, and
under the beginning of either when no other short name, or no other qualified name, begins so.
-/

namespace RecordFilter

inductive SchemaError where
  /-- A short name with several owners. -/
  | ambiguous (name : String) (namespaces : List String)
  /-- The beginning of several names, the first of which are given. -/
  | ambiguousStart (name : String) (candidates : List String)
deriving DecidableEq, Repr

/-- The wording of the error.  The suggestion names an owner that can be written down. -/
def SchemaError.message : SchemaError → String
  | ambiguous name namespaces =>
    let owners := namespaces.map fun space => if space.isEmpty then "(top level)" else space
    let suggested := (namespaces.find? fun space => !space.isEmpty).getD ""
    "Property '" ++ name ++ "' exists in multiple directories: " ++ ", ".intercalate owners ++
      "\nPlease specify the desired directory like this: \"" ++ suggested ++ "." ++ name ++ "\""
  | ambiguousStart name candidates =>
    "Property '" ++ name ++ "' matches multiple properties: " ++ ", ".intercalate candidates

namespace Schema

/-- How many names an ambiguous beginning is reported with. -/
def maxCandidates : Nat := 5

/-- The column of a folded short name with these owners, when there is only one. -/
def resolveShort (s : Schema) (short : String) (namespaces : List String) :
    Except SchemaError (Option Column) :=
  match namespaces with
  | [space] => .ok (s.columns.find? (Text.fold (qualify space short)))
  | _ => .error (.ambiguous short namespaces)

def lookupQualifiedStart (s : Schema) (key : String) : Except SchemaError (Option Column) :=
  match (s.columns.startingWith key).map Prod.snd with
  | [] => .ok none
  | [column] => .ok (some column)
  | columns => .error (.ambiguousStart key ((columns.take maxCandidates).map Column.name))

/-- The column for a name in any letter case: by its qualified name, by its short name, by the
    beginning of a short name, and by the beginning of a qualified name, in this order. -/
def lookup (s : Schema) (name : String) : Except SchemaError (Option Column) :=
  let key := Text.fold name
  if key.isEmpty then .ok none
  else
    match s.columns.find? key with
    | some column => .ok (some column)
    | none =>
      match s.owners.find? key with
      -- A short name in full is never taken for the beginning of another name.
      | some namespaces => s.resolveShort key namespaces
      | none =>
        match s.owners.startingWith key with
        -- Namespaces are only looked at when no short name begins so.
        | [] => s.lookupQualifiedStart key
        | [(short, namespaces)] => s.resolveShort short namespaces
        | shorts => .error (.ambiguousStart key ((shorts.take maxCandidates).map Prod.fst))

end Schema

end RecordFilter
