import RecordFilter.Operator
/-!
# Expressions

The tree of a filter: operators over columns and constants.  A filter with nothing written in it is
the empty expression, which never stands inside another.
-/

namespace RecordFilter

inductive Expr where
  | empty
  /-- A column with its qualified name and its type. -/
  | column (name : String) (type : ColumnType)
  | constant (value : Value)
  | binary (op : Operator) (left right : Expr)
deriving DecidableEq

namespace Expr

def isEmpty : Expr → Bool
  | empty => true
  | _ => false

def columnType? : Expr → Option ColumnType
  | column _ type => some type
  | _ => none

def columns : Expr → List String
  | empty => []
  | column name _ => [name]
  | constant _ => []
  | binary _ left right => left.columns ++ right.columns

/-- The text that shows an expression, with parentheses around every operator. -/
def shown : Expr → String
  | empty => ""
  | column name _ => "\"" ++ name ++ "\""
  | constant .null => "<null>"
  | constant value => value.shown
  | binary op left right => "(" ++ left.shown ++ " " ++ op.symbol ++ " " ++ right.shown ++ ")"

end Expr

end RecordFilter
