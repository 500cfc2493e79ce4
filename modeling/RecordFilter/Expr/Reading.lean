import RecordFilter.Command
import RecordFilter.Expr
import RecordFilter.Expr.ParseError
/-!
# Reading expressions

A command is read token by token.  The operation being written is `pending`; operations that wait
for it to be finished lie on a stack.  A parenthesis `(` lays the pending operation aside and `)`
hands the finished group back to it.  An operator after a complete condition lays that condition
aside as a left operand, so a chain of operators nests to the right:

    a < 1 && b > 2 || c == 3    is    (a < 1) && ((b > 2) || (c == 3))

The right side of a comparison or a text test is a literal, which takes the type of the column on
its left; only a group may stand in its place.
-/

namespace RecordFilter

inductive Pending where
  | start
  | operand (left : Expr)
  /-- An operator, with its position, whose right side is still to come. -/
  | awaiting (left : Expr) (op : Operator) (position : Nat)
  | complete (left : Expr) (op : Operator) (position : Nat) (right : Expr)
deriving DecidableEq

namespace Pending

/-- The operation with a finished part added; an empty part adds nothing. -/
def add (pending : Pending) (part : Expr) : Except ParseErrorKind Pending :=
  if part.isEmpty then .ok pending
  else
    -- Only an operation that waits for an operand has a place for the part.
    match pending with
    | start => .ok (operand part)
    | operand _ => .error .missingOperator
    | awaiting left op position => .ok (complete left op position part)
    | complete .. => .error .tooManyOperands

def acceptsGroup : Pending → Bool
  | start => true
  | operand _ => false
  | awaiting .. => true
  | complete .. => false

def finish : Pending → Except ParseFault Expr
  | start => .ok .empty
  | operand left => .ok left
  | awaiting _ op position => .error ⟨.missingOperand op, position⟩
  | complete left op _ right => .ok (.binary op left right)

/-- The outer operation with the inner one, finished, added to it. -/
def attach (outer inner : Pending) (position : Nat) : Except ParseFault Pending := do
  let part ← inner.finish
  match outer.add part with
  | .ok pending => .ok pending
  | .error kind => .error ⟨kind, position⟩

end Pending

inductive Frame where
  /-- Until the parenthesis at the position is closed. -/
  | group (pending : Pending) (position : Nat)
  /-- Until the operand on its right is finished. -/
  | chain (pending : Pending)
deriving DecidableEq

/-- The operations laid aside, the last one first, and the pending one. -/
structure ParseState where
  stack : List Frame
  pending : Pending
deriving DecidableEq

namespace ParseState

/-! ### What a token can stand for -/

def resolve (schema : Schema) (token : Token) : Except ParseFault Expr :=
  match schema.lookup token.text with
  | .ok (some column) => .ok (.column column.name column.type)
  | .ok none => .error ⟨.unknownProperty token.text, token.position⟩
  | .error error => .error ⟨.ambiguousProperty error, token.position⟩

/-- The operator a token is; quoted text is never one. -/
def operator (token : Token) : Except ParseFault Operator :=
  match if token.quoted then none else Operator.ofSymbol? token.text with
  | some op => .ok op
  | none => .error ⟨.unknownOperator token.text, token.position⟩

def literal (left : Expr) (token : Token) : Except ParseFault Expr :=
  match left.columnType? with
  | none => .error ⟨.literalWithoutProperty token.text, token.position⟩
  | some type =>
    match Value.ofLiteral token.text type with
    | .ok value => .ok (.constant value)
    | .error error => .error ⟨.literal error, token.position⟩

/-! ### Steps -/

def openGroup (state : ParseState) (position : Nat) : Except ParseFault ParseState :=
  if state.pending.acceptsGroup then
    .ok ⟨.group state.pending position :: state.stack, .start⟩
  else .error ⟨.missingOperator, position⟩

/-- Ends the innermost group: finishes the chains begun in it and hands it to the operation that
    was laid aside for it. -/
def closeGroup (position : Nat) : List Frame → Pending → Except ParseFault ParseState
  | [], _ => .error ⟨.unexpectedClose, position⟩
  | .chain outer :: rest, inner => do
    closeGroup position rest (← outer.attach inner position)
  | .group outer _ :: rest, inner => do
    return ⟨rest, ← outer.attach inner position⟩

/-- Takes a token that is no parenthesis: a column, an operator or a literal, whichever the
    pending operation needs next. -/
def accept (schema : Schema) (state : ParseState) (token : Token) :
    Except ParseFault ParseState := do
  match state.pending with
  | .start => return ⟨state.stack, .operand (← resolve schema token)⟩
  | .operand left => return ⟨state.stack, .awaiting left (← operator token) token.position⟩
  | .awaiting left (.connective op) position =>
    -- A column behind a connective begins an operation of its own, the right side of this one.
    return ⟨.chain (.awaiting left (.connective op) position) :: state.stack,
      .operand (← resolve schema token)⟩
  | .awaiting left op position =>
    return ⟨state.stack, .complete left op position (← literal left token)⟩
  | .complete left op _ right =>
    -- The operator applies to the finished operation, whose right side is not looked at again.
    let next ← operator token
    return ⟨.chain (.awaiting (.binary op left right) next token.position) :: state.stack, .start⟩

def step (schema : Schema) (state : ParseState) (token : Token) :
    Except ParseFault ParseState :=
  if token.isParen '(' then state.openGroup token.position
  else if token.isParen ')' then closeGroup token.position state.stack state.pending
  else state.accept schema token

/-! ### The end of the command -/

def openGroup? : List Frame → Option Nat
  | [] => none
  | .group _ position :: _ => some position
  | .chain _ :: rest => openGroup? rest

/-- Finishes all chains; `position` is the end of the command. -/
def unwind (position : Nat) : List Frame → Pending → Except ParseFault Pending
  | [], inner => .ok inner
  | .chain outer :: rest, inner => do unwind position rest (← outer.attach inner position)
  | .group .. :: rest, inner => unwind position rest inner

def finish (state : ParseState) (position : Nat) : Except ParseFault Expr :=
  match openGroup? state.stack with
  | some opened => .error ⟨.unclosedGroup, opened⟩
  | none => do (← unwind position state.stack state.pending).finish

end ParseState

namespace Expr

def ofTokens (schema : Schema) (tokens : List Token) (length : Nat) : Except ParseFault Expr := do
  let state ← tokens.foldlM (ParseState.step schema) ⟨[], .start⟩
  state.finish length

def ofCommand (schema : Schema) (command : Command) : Except ParseError Expr :=
  match ofTokens schema command.tokens command.text.length with
  | .ok expr => .ok expr
  | .error fault => .error ⟨command.text, fault⟩

end Expr

end RecordFilter
