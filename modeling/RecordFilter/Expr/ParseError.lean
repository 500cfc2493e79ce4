import RecordFilter.Operator
import RecordFilter.Schema.Lookup
import RecordFilter.Value.Literal
/-!
# Parse errors

What is wrong with a command that is no filter, and where.
-/

namespace RecordFilter

inductive ParseErrorKind where
  | unknownProperty (name : String)
  | ambiguousProperty (error : SchemaError)
  | unknownOperator (text : String)
  | literal (error : LiteralError)
  | literalWithoutProperty (text : String)
  | unclosedGroup
  | unexpectedClose
  | tooManyOperands
  | missingOperand (op : Operator)
  | missingOperator
deriving DecidableEq, Repr

def ParseErrorKind.message : ParseErrorKind → String
  | unknownProperty name => "Invalid property name: " ++ name
  | ambiguousProperty error => error.message
  | unknownOperator text => "Invalid operator: " ++ text
  | literal error => error.message
  | literalWithoutProperty text => "Value '" ++ text ++ "' must follow a property and an operator"
  | unclosedGroup => "Unbalanced parentheses: '(' is never closed"
  | unexpectedClose => "Unbalanced parentheses: ')' has no matching '('"
  | tooManyOperands => "Too many operands: an operation takes two"
  | missingOperand op => "Operator '" ++ op.symbol ++ "' is missing its right operand"
  | missingOperator => "Missing operator between operands"

structure ParseFault where
  kind : ParseErrorKind
  position : Nat
deriving DecidableEq, Repr

structure ParseError where
  command : String
  fault : ParseFault
deriving DecidableEq, Repr

/-- The wording of the error, the command, and a mark under the position. -/
def ParseError.message (e : ParseError) : String :=
  e.fault.kind.message ++ "\n" ++ e.command ++ "\n" ++
    String.ofList (List.replicate e.fault.position ' ') ++ "^"

end RecordFilter
