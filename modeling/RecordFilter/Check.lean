import RecordFilter.Record.Json
import RecordFilter.Schema.Inference
import RecordFilter.Session
/-!
# Checking records

`Check.run` loads records, infers their schema and lists the records that pass every filter.  When
only directories pass, which is what a filter on a directory's own property selects, their contents
are listed in their place.
-/

namespace RecordFilter

inductive CheckError where
  | noInput
  | load (error : LoadError)
  | filter (error : FilterError)
deriving DecidableEq, Repr

def CheckError.message : CheckError → String
  | noInput => "No input provided. Use --input or pipe JSON to stdin."
  | load error => error.message
  | filter error => error.message

/-- Filters to be applied to records, each on top of the ones before it. -/
structure Check where
  filters : List String
  /-- The records, as JSON text. -/
  input : Option String
  /-- Whether the filters are only compiled. -/
  compileOnly : Bool
  /-- Whether the printed filter shows guards and earlier filters. -/
  explain : Bool

inductive CheckResult where
  | valid (filter : String)
  | matches (filter : String) (records : List Record)
deriving DecidableEq

namespace Check

def addAll (schema : Schema) (filters : List String) : Except FilterError Session :=
  filters.foldlM (fun session text => session.add schema text) .empty

def filterText (session : Session) (explain : Bool) : String :=
  match session.active with
  | none => ""
  | some filter => if explain then filter.explanation else filter.text

/-- The matches, unless all of them are directories: then everything in these directories.  A
    directory is what some record names as its parent. -/
def contentsOfDirectories (records matched : List Record) : List Record :=
  let parents := records.filterMap Record.parent
  -- One match that is no directory is enough to list the matches themselves.
  if matched.isEmpty || !matched.all fun r => parents.contains r.id then matched
  else
    let directories := matched.map Record.id
    records.filter fun r => r.parent.any directories.contains

def listed (session : Session) (records : List Record) : List Record :=
  contentsOfDirectories records (session.select records)

def runOn (check : Check) (records : List Record) : Except FilterError CheckResult :=
  match addAll (Schema.infer records) check.filters with
  | .error error => .error error
  | .ok session =>
    let filter := filterText session check.explain
    .ok (if check.compileOnly then .valid filter else .matches filter (listed session records))

def run (check : Check) : Except CheckError CheckResult :=
  match check.input with
  | none => .error .noInput
  | some text =>
    match Record.load text with
    | .error error => .error (.load error)
    | .ok records =>
      match check.runOn records with
      | .error error => .error (.filter error)
      | .ok result => .ok result

end Check

end RecordFilter
