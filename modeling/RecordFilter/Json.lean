import RecordFilter.Binary64.Text
import RecordFilter.Dictionary
/-!
# JSON values and their texts

The members of an object are kept in ascending order of their keys, each key once.  A number
without point and exponent is an integer as long as it has 64 bits, signed or not; every other
number is a float.
-/

namespace RecordFilter

inductive Json where
  | null
  | boolean (b : Bool)
  | integer (n : Int)
  | float (x : Binary64)
  | string (s : String)
  | array (items : List Json)
  | object (members : List (String × Json))

namespace Json

/-- The object with these members; of two with one key the later counts. -/
def ofMembers (members : List (String × Json)) : Json :=
  object (members.foldl (fun sorted (key, value) => Dictionary.insertEntry key value sorted) [])

/-! ### Scalars -/

/-- Numbers from `0.00001` to below `10 ^ 16` have no exponent, and whole numbers end in `.0`. -/
def numberStyle : FloatStyle := ⟨fun x => -5 ≤ x && x < 16, ".0", false⟩

/-- The text of a float; what is not finite has no number and is written as null. -/
def floatText (x : Binary64) : String := if x.isFinite then x.text numberStyle else "null"

def hexDigit (n : Nat) : Char := Nat.digitChar (n % 16)

def escaped (c : Char) : List Char :=
  match c with
  | '"' => ['\\', '"']
  | '\\' => ['\\', '\\']
  | '\x08' => ['\\', 'b']
  | '\x0c' => ['\\', 'f']
  | '\n' => ['\\', 'n']
  | '\r' => ['\\', 'r']
  | '\t' => ['\\', 't']
  | c =>
    if c.toNat < 0x20 then ['\\', 'u', '0', '0', hexDigit (c.toNat / 16), hexDigit c.toNat] else [c]

def quoted (s : String) : String := String.ofList ('"' :: s.toList.flatMap escaped ++ ['"'])

/-! ### Compact text -/

mutual

def compact : Json → String
  | null => "null"
  | boolean b => if b then "true" else "false"
  | integer n => toString n
  | float x => floatText x
  | string s => quoted s
  | array items => "[" ++ ",".intercalate (compactItems items) ++ "]"
  | object members => "\x7b" ++ ",".intercalate (compactMembers members) ++ "\x7d"

def compactItems : List Json → List String
  | [] => []
  | item :: rest => item.compact :: compactItems rest

def compactMembers : List (String × Json) → List String
  | [] => []
  | (key, value) :: rest => (quoted key ++ ":" ++ value.compact) :: compactMembers rest

end

/-! ### Indented text -/

/-- The start of a line at a depth of nesting: two spaces for each level. -/
def newLine (depth : Nat) : String := "\n" ++ String.ofList (List.replicate (2 * depth) ' ')

def bracketed (opening closing : String) (depth : Nat) (parts : List String) : String :=
  if parts.isEmpty then opening ++ closing
  else
    opening ++ newLine (depth + 1) ++ ("," ++ newLine (depth + 1)).intercalate parts ++
      newLine depth ++ closing

mutual

def indented (depth : Nat) : Json → String
  | null => "null"
  | boolean b => if b then "true" else "false"
  | integer n => toString n
  | float x => floatText x
  | string s => quoted s
  | array items => bracketed "[" "]" depth (indentedItems (depth + 1) items)
  | object members => bracketed "\x7b" "\x7d" depth (indentedMembers (depth + 1) members)

def indentedItems (depth : Nat) : List Json → List String
  | [] => []
  | item :: rest => item.indented depth :: indentedItems depth rest

def indentedMembers (depth : Nat) : List (String × Json) → List String
  | [] => []
  | (key, value) :: rest =>
    (quoted key ++ ": " ++ value.indented depth) :: indentedMembers depth rest

end

def pretty (json : Json) : String := json.indented 0

end Json

end RecordFilter
