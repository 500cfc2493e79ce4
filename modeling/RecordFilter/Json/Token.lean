import RecordFilter.Json.Number
/-!
# Tokens of JSON texts

Brackets, colons and commas are tokens, and so is every scalar.  A number is a longest run of the
characters that numbers are written with, a name a longest run of letters, and a string goes up to
the next quote that is not escaped.
-/

namespace RecordFilter.Json

inductive Token where
  | openArray
  | closeArray
  | openObject
  | closeObject
  | colon
  | comma
  | scalar (value : Json)

/-! ### Strings -/

/-- A piece of a string: a character, or a 16-bit unit written in hexadecimal digits. -/
inductive StringPiece where
  | char (c : Char)
  | unit (n : Nat)
deriving DecidableEq, Repr

def hexValue? (c : Char) : Option Nat :=
  if c.isDigit then some (c.toNat - '0'.toNat)
  else if 'a' ≤ c ∧ c ≤ 'f' then some (c.toNat - 'a'.toNat + 10)
  else if 'A' ≤ c ∧ c ≤ 'F' then some (c.toNat - 'A'.toNat + 10)
  else none

def unitValue? (a b c d : Char) : Option Nat := do
  return (((← hexValue? a) * 16 + (← hexValue? b)) * 16 + (← hexValue? c)) * 16 + (← hexValue? d)

def unescaped? : Char → Option Char
  | '"' => some '"'
  | '\\' => some '\\'
  | '/' => some '/'
  | 'b' => some '\x08'
  | 'f' => some '\x0c'
  | 'n' => some '\n'
  | 'r' => some '\r'
  | 't' => some '\t'
  | _ => none

/-- The pieces of what stands between quotes.  Control characters must be escaped. -/
def pieces? : List Char → Option (List StringPiece)
  | [] => some []
  | '\\' :: 'u' :: a :: b :: c :: d :: rest => do
    return .unit (← unitValue? a b c d) :: (← pieces? rest)
  | '\\' :: c :: rest => do return .char (← unescaped? c) :: (← pieces? rest)
  | c :: rest =>
    if c = '\\' || c.toNat < 0x20 then none else (pieces? rest).map (.char c :: ·)

/-- The characters for pieces: two units may make one character, and must when one of them is the
    half of a pair. -/
def joinPieces? : List StringPiece → Option (List Char)
  | [] => some []
  | .char c :: rest => (joinPieces? rest).map (c :: ·)
  | .unit n :: rest =>
    -- The units in between are halves of pairs and mean nothing on their own.
    if n < 0xD800 || 0xE000 ≤ n then (joinPieces? rest).map (Char.ofNat n :: ·)
    else
      match rest with
      | .unit m :: rest =>
        if n < 0xDC00 && 0xDC00 ≤ m && m < 0xE000 then
          (joinPieces? rest).map
            (Char.ofNat (0x10000 + (n - 0xD800) * 0x400 + (m - 0xDC00)) :: ·)
        else none
      | _ => none

/-- What stands before the next quote that is not escaped. -/
def stringBody? : List Char → Option (List Char)
  | [] => none
  | '"' :: _ => some []
  | '\\' :: c :: rest => (stringBody? rest).map fun body => '\\' :: c :: body
  | c :: rest => (stringBody? rest).map (c :: ·)

/-! ### Tokens -/

def isNumberChar (c : Char) : Bool :=
  c.isDigit || c == '-' || c == '+' || c == '.' || c == 'e' || c == 'E'

def named? (word : List Char) : Option Json :=
  if word = ['t', 'r', 'u', 'e'] then some (boolean true)
  else if word = ['f', 'a', 'l', 's', 'e'] then some (boolean false)
  else if word = ['n', 'u', 'l', 'l'] then some null
  else none

/-- The first token of a text that begins with `c` and goes on with `rest`, and how many
    characters of the rest belong to it. -/
def firstToken? (c : Char) (rest : List Char) : Option (Token × Nat) :=
  match c with
  | '[' => some (.openArray, 0)
  | ']' => some (.closeArray, 0)
  | '\x7b' => some (.openObject, 0)
  | '\x7d' => some (.closeObject, 0)
  | ':' => some (.colon, 0)
  | ',' => some (.comma, 0)
  | '"' => do
    let body ← stringBody? rest
    let chars ← pieces? body >>= joinPieces?
    return (.scalar (.string (String.ofList chars)), body.length + 1)
  | c =>
    if c.isDigit || c == '-' then do
      let run := rest.takeWhile isNumberChar
      return (.scalar (← readNumber? (c :: run)), run.length)
    else do
      let run := rest.takeWhile Char.isAlpha
      return (.scalar (← named? (c :: run)), run.length)

def tokens? : List Char → Option (List Token)
  | [] => some []
  | c :: rest =>
    if c = ' ' ∨ c = '\t' ∨ c = '\n' ∨ c = '\r' then tokens? rest
    else
      match firstToken? c rest with
      | none => none
      | some (token, taken) => (tokens? (rest.drop taken)).map (token :: ·)
termination_by s => s.length
decreasing_by
  · simp
  · simp only [List.length_drop, List.length_cons]; omega

end RecordFilter.Json
