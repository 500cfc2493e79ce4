import RecordFilter.Command.Lexer
import RecordFilter.Expr.Reading
import RecordFilter.Filter.Compile
/-!
# Filter sessions

A session holds the filter that narrows a listing.  A new filter takes its place or is added to it;
a text that is no filter changes nothing.
-/

namespace RecordFilter

inductive FilterError where
  | parse (error : ParseError)
  | compile (error : CompileError)
deriving DecidableEq, Repr

def FilterError.message : FilterError → String
  | parse error => error.message
  | compile error => error.message

/-- The filter that a text writes, on top of an earlier filter if there is one. -/
def Filter.ofText (schema : Schema) (text : String) (previous : Option Filter) :
    Except FilterError Filter :=
  match Expr.ofCommand schema (Command.ofText text) with
  | .error error => .error (.parse error)
  | .ok expr =>
    match expr.compile schema previous with
    | .error error => .error (.compile error)
    | .ok filter => .ok filter

structure Session where
  active : Option Filter

namespace Session

inductive Step where
  /-- Puts a filter in the place of the active one. -/
  | apply (text : String)
  /-- Narrows the active filter. -/
  | add (text : String)
  | clear
deriving DecidableEq, Repr

def empty : Session := ⟨none⟩

def apply (s : Session) (schema : Schema) (text : String) : Except FilterError Session := do
  return { s with active := some (← Filter.ofText schema text none) }

def add (s : Session) (schema : Schema) (text : String) : Except FilterError Session := do
  return { s with active := some (← Filter.ofText schema text s.active) }

/-- The session after a step, and what was wrong with the step. -/
def step (s : Session) (schema : Schema) : Step → Session × Option FilterError
  | .apply text =>
    match s.apply schema text with
    | .ok next => (next, none)
    | .error error => (s, some error)
  | .add text =>
    match s.add schema text with
    | .ok next => (next, none)
    | .error error => (s, some error)
  | .clear => (empty, none)

/-- Whether properties pass the active filter; all do when there is none. -/
def accepts (s : Session) (properties : Properties) : Bool :=
  match s.active with
  | none => true
  | some filter => filter.accepts properties

def select (s : Session) (records : List Record) : List Record :=
  records.filter fun r => s.accepts r.property

def isFiltered (s : Session) : Bool := s.active.isSome

def shown? (s : Session) : Option String := s.active.map Filter.text

def columns? (s : Session) : Option (List String) := s.active.map Filter.columns

end Session

end RecordFilter
