import RecordFilter.Expr
import RecordFilter.Filter
import RecordFilter.Schema
/-!
# Compiling expressions to filters

An expression is compiled when it is a condition: a comparison or a text test between columns and
constants, a boolean column, or two conditions with a connective between them.  Whatever stands
elsewhere, and a column that the schema does not have, is an error; the first one from the left is
reported.

The columns an expression reads are collected on the way.  The whole condition is guarded by them,
both sides of an `||` included.
-/

namespace RecordFilter

inductive CompileError where
  | empty
  | notACondition (text : String)
  | notAValue (text : String)
  | unknownColumn (name : String)
deriving DecidableEq, Repr

def CompileError.message : CompileError → String
  | empty => "Filter is empty"
  | notACondition text => "'" ++ text ++ "' is not a condition"
  | notAValue text => "'" ++ text ++ "' is not a value"
  | unknownColumn name => "Unknown column: " ++ name

/-- A compiled part with its label, and all columns required so far. -/
structure Lowered (α : Type) where
  part : α
  label : Label
  required : List String

namespace Expr

def requireColumn (schema : Schema) (required : List String) (name : String) :
    Except CompileError (List String) :=
  if schema.contains name then
    .ok (if required.contains name then required else required ++ [name])
  else .error (.unknownColumn name)

/-- Compiles one side of an operator; `peer` is the type of the column on the other side. -/
def lowerValue (schema : Schema) (peer : Option ColumnType) (required : List String) :
    Expr → Except CompileError (Lowered Operand)
  | empty => .error .empty
  | column name _ => do
    return ⟨.property name, .column name, ← requireColumn schema required name⟩
  | constant value => .ok ⟨.constant value, .constant value peer, required⟩
  -- Operators have no value: a side is a column or a constant.
  | binary op left right => .error (.notAValue (binary op left right).shown)

/-- Compiles both sides of an operator to the condition that `build` makes of them. -/
def lowerSides (schema : Schema) (required : List String) (op : Operator)
    (build : Operand → Operand → Condition) (left right : Expr) :
    Except CompileError (Lowered Condition) := do
  let l ← lowerValue schema right.columnType? required left
  let r ← lowerValue schema left.columnType? l.required right
  return ⟨build l.part r.part, .binary op l.label r.label, r.required⟩

def lowerCondition (schema : Schema) (required : List String) :
    Expr → Except CompileError (Lowered Condition)
  | empty => .error .empty
  | constant value => .error (.notACondition value.shown)
  -- A boolean column is a condition on its own, any other needs an operator.
  | column name .boolean => do
    return ⟨.isTrue name, .column name, ← requireColumn schema required name⟩
  | column name _ => .error (.notACondition name)
  | binary (.connective op) left right => do
    let l ← lowerCondition schema required left
    let r ← lowerCondition schema l.required right
    return ⟨.connect op l.part r.part, .binary (.connective op) l.label r.label, r.required⟩
  | binary (.comparison op) left right =>
    lowerSides schema required (.comparison op) (.compare op) left right
  | binary (.textTest op) left right =>
    lowerSides schema required (.textTest op) (.test op) left right

def compileAlone (schema : Schema) (e : Expr) : Except CompileError Filter := do
  -- The filter starts from no columns, even if there is an earlier one: that has its own guard.
  let lowered ← lowerCondition schema [] e
  return ⟨.guard lowered.required lowered.part, .guard lowered.required lowered.label,
    lowered.required⟩

/-- The filter of an expression, on top of an earlier filter if there is one. -/
def compile (schema : Schema) (e : Expr) (previous : Option Filter) :
    Except CompileError Filter := do
  let filter ← e.compileAlone schema
  return match previous with
    | some earlier => earlier.narrow filter
    | none => filter

end Expr

end RecordFilter
