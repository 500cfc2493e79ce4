import RecordFilter.Json.Token
/-!
# Reading JSON

A text is read token by token.  The arrays and objects that are not closed yet lie on a stack, which
holds at most 127 of them.
-/

namespace RecordFilter.Json

/-- An array or object that is not closed yet; its parts come last one first. -/
inductive Container where
  | array (items : List Json)
  /-- An object, with the key of the member that is being read. -/
  | object (members : List (String × Json)) (key : String)

inductive Place where
  | value
  /-- The first item of an array, or its end. -/
  | firstItem
  /-- The first key of an object, or its end. -/
  | firstKey
  | key
  | colon
  /-- A comma, or the end of the array or object. -/
  | afterPart
  /-- Nothing: the value is complete. -/
  | finished (value : Json)

/-- The open arrays and objects, the innermost first, and what may stand next. -/
structure ReadState where
  stack : List Container
  place : Place

namespace ReadState

def maxDepth : Nat := 127

def enter (stack : List Container) (container : Container) (place : Place) : Option ReadState :=
  if stack.length < maxDepth then some ⟨container :: stack, place⟩ else none

def give (value : Json) : List Container → ReadState
  | [] => ⟨[], .finished value⟩
  | .array items :: rest => ⟨.array (value :: items) :: rest, .afterPart⟩
  | .object members key :: rest => ⟨.object ((key, value) :: members) key :: rest, .afterPart⟩

def beginValue (stack : List Container) : Token → Option ReadState
  | .openArray => enter stack (.array []) .firstItem
  | .openObject => enter stack (.object [] "") .firstKey
  | .scalar value => some (give value stack)
  | _ => none

def takeKey (stack : List Container) : Token → Option ReadState
  | .scalar (.string key) =>
    match stack with
    | .object members _ :: rest => some ⟨.object members key :: rest, .colon⟩
    | _ => none
  | _ => none

def close (stack : List Container) : Token → Option ReadState
  | .closeArray =>
    match stack with
    | .array items :: rest => some (give (.array items.reverse) rest)
    | _ => none
  | .closeObject =>
    match stack with
    | .object members _ :: rest => some (give (ofMembers members.reverse) rest)
    | _ => none
  | _ => none

def afterPart (stack : List Container) : Token → Option ReadState
  | .comma =>
    match stack with
    | .array _ :: _ => some ⟨stack, .value⟩
    | .object .. :: _ => some ⟨stack, .key⟩
    | [] => none
  | token => close stack token

def step (state : ReadState) (token : Token) : Option ReadState :=
  match state.place with
  | .value => beginValue state.stack token
  -- An array may end here, being empty, but not behind a comma, where a value has to follow.
  | .firstItem => close state.stack token <|> beginValue state.stack token
  | .firstKey => close state.stack token <|> takeKey state.stack token
  | .key => takeKey state.stack token
  | .colon =>
    match token with
    | .colon => some ⟨state.stack, .value⟩
    | _ => none
  | .afterPart => afterPart state.stack token
  | .finished _ => none

def result? (state : ReadState) : Option Json :=
  match state.place with
  | .finished value => some value
  | _ => none

end ReadState

def read? (text : String) : Option Json := do
  let tokens ← tokens? text.toList
  (← tokens.foldlM ReadState.step ⟨[], .value⟩).result?

end RecordFilter.Json
