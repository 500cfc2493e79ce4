import RecordFilter.Expr.Reading
/-!
# Reading expressions into slots

The same reader, over operations with three slots: the operator, the left operand and the right one.
A slot is filled at most once.  What a token is for is seen from the first slot that is empty, and
what an operation can still take from all three, whatever was filled before.
-/

namespace RecordFilter

structure Slots where
  /-- The operator with its position. -/
  op : Option (Operator × Nat)
  left : Option Expr
  right : Option Expr
deriving DecidableEq

namespace Slots

def empty : Slots := ⟨none, none, none⟩

/-- The operation with a finished part in the first free slot; an empty part adds nothing. -/
def add (slots : Slots) (part : Expr) : Except ParseErrorKind Slots :=
  if part.isEmpty then .ok slots
  else if slots.left.isNone then .ok { slots with left := some part }
  else if slots.right.isNone then .ok { slots with right := some part }
  else .error .tooManyOperands

def acceptsGroup : Slots → Bool
  | ⟨_, none, _⟩ => true
  -- The operator needs its right operand.
  | ⟨some _, some _, none⟩ => true
  | _ => false

/-- The finished operation.  An error that is known to be at some operator points there, any other
    at the place where the operation ends. -/
def finish (slots : Slots) (ending : Nat) : Except ParseFault Expr :=
  match slots with
  | ⟨none, none, none⟩ => .ok .empty
  | ⟨none, some left, none⟩ => .ok left
  -- A right operand without an operator; slots filled in order never come here.
  | ⟨none, _, some _⟩ => .error ⟨.missingOperator, ending⟩
  | ⟨some (op, _), some left, some right⟩ => .ok (.binary op left right)
  | ⟨some (op, position), _, _⟩ => .error ⟨.missingOperand op, position⟩

def attach (outer inner : Slots) (position : Nat) : Except ParseFault Slots := do
  let part ← inner.finish position
  match outer.add part with
  | .ok slots => .ok slots
  | .error kind => .error ⟨kind, position⟩

end Slots

inductive SlotFrame where
  | group (slots : Slots) (position : Nat)
  | chain (slots : Slots)
deriving DecidableEq

structure SlotState where
  stack : List SlotFrame
  current : Slots
deriving DecidableEq

namespace SlotState

def initial : SlotState := ⟨[], .empty⟩

def openGroup (state : SlotState) (position : Nat) : Except ParseFault SlotState :=
  if state.current.acceptsGroup then
    .ok ⟨.group state.current position :: state.stack, .empty⟩
  else .error ⟨.missingOperator, position⟩

def closeGroup (position : Nat) : List SlotFrame → Slots → Except ParseFault SlotState
  | [], _ => .error ⟨.unexpectedClose, position⟩
  | .chain outer :: rest, inner => do
    closeGroup position rest (← outer.attach inner position)
  | .group outer _ :: rest, inner => do
    return ⟨rest, ← outer.attach inner position⟩

/-- Takes a token that is no parenthesis.  To the right of a connective the operation is laid aside,
    and the token is taken once more, by an empty one. -/
def accept (schema : Schema) (state : SlotState) (token : Token) : Except ParseFault SlotState :=
  match _ : state.current.left with
  | none => do
    let column ← ParseState.resolve schema token
    return { state with current := { state.current with left := some column } }
  | some left =>
    match state.current.op with
    | none => do
      let op ← ParseState.operator token
      return { state with current := { state.current with op := some (op, token.position) } }
    | some (op, _) =>
      match state.current.right with
      | none =>
        match op with
        -- The empty operation resolves the token in its first slot, so this happens only once.
        | .connective _ => accept schema ⟨.chain state.current :: state.stack, .empty⟩ token
        | _ => do
          let constant ← ParseState.literal left token
          return { state with current := { state.current with right := some constant } }
      | some _ => do
        let next ← ParseState.operator token
        let finished ← state.current.finish token.position
        return ⟨.chain ⟨some (next, token.position), some finished, none⟩ :: state.stack, .empty⟩
termination_by if state.current.left.isNone then 0 else 1
decreasing_by simp [*, Slots.empty]

def step (schema : Schema) (state : SlotState) (token : Token) : Except ParseFault SlotState :=
  if token.isParen '(' then state.openGroup token.position
  else if token.isParen ')' then closeGroup token.position state.stack state.current
  else state.accept schema token

def openGroup? : List SlotFrame → Option Nat
  | [] => none
  | .group _ position :: _ => some position
  | .chain _ :: rest => openGroup? rest

def unwind (position : Nat) : List SlotFrame → Slots → Except ParseFault Slots
  | [], inner => .ok inner
  | .chain outer :: rest, inner => do unwind position rest (← outer.attach inner position)
  | .group .. :: rest, inner => unwind position rest inner

def finish (state : SlotState) (position : Nat) : Except ParseFault Expr :=
  match openGroup? state.stack with
  | some opened => .error ⟨.unclosedGroup, opened⟩
  | none => do (← unwind position state.stack state.current).finish position

end SlotState

def Expr.ofTokensInSlots (schema : Schema) (tokens : List Token) (length : Nat) :
    Except ParseFault Expr := do
  let state ← tokens.foldlM (SlotState.step schema) .initial
  state.finish length

end RecordFilter
