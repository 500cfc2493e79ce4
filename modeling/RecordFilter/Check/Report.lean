import RecordFilter.Record
/-!
# Reporting matches

The ids of records, grouped under their parents: first the records without a parent, and then a
group for every parent, in the order in which the parents come first.
-/

namespace RecordFilter.Check

structure Group where
  parent : Option String
  ids : List String
deriving DecidableEq, Repr

def addToGroups (r : Record) : List Group → List Group
  | [] => [⟨r.parent, [r.id]⟩]
  | group :: rest =>
    if group.parent = r.parent then ⟨group.parent, group.ids ++ [r.id]⟩ :: rest
    else group :: addToGroups r rest

/-- The groups of records, parents in the order in which they come first. -/
def groupByParent (records : List Record) : List Group :=
  records.foldl (fun groups r => addToGroups r groups) []

def Group.text (group : Group) : String :=
  match group.parent with
  | some parent => parent ++ ":\n" ++ String.join (group.ids.map fun id => "  " ++ id ++ "\n")
  | none => String.join (group.ids.map fun id => id ++ "\n")

/-- Groups without a parent stand before all others. -/
def Group.le (a b : Group) : Bool := a.parent.isSome ≤ b.parent.isSome

/-- The text of all groups.  The sort is stable, so groups of one kind stay in their order. -/
def report (records : List Record) : String :=
  String.join (((groupByParent records).mergeSort Group.le).map Group.text)

end RecordFilter.Check
