import RecordFilter.Text.Fold
/-!
# Commands and tokens

A command is the text of a filter together with its tokens.  Tokens carry the place where they
stand in the command, so that an error can point at one.
-/

namespace RecordFilter

structure Token where
  text : String
  /-- The number of characters of the command before the token. -/
  position : Nat
  /-- Whether the text stands between double quotes, which are not part of it. -/
  quoted : Bool
deriving DecidableEq, Repr

namespace Token

def isParen (t : Token) (paren : Char) : Bool := !t.quoted && t.text == String.singleton paren

def shown (t : Token) : String :=
  toString t.position ++ ":" ++ if t.quoted then "\"" ++ t.text ++ "\"" else t.text

def isBlank (t : Token) : Bool := Text.isAllBlank t.text.toList

def insertByPosition (t : Token) : List Token → List Token
  | [] => [t]
  | u :: rest => if t.position ≤ u.position then t :: u :: rest else u :: insertByPosition t rest

/-- Tokens in the order of their positions; those at one position stay as they are. -/
def sortByPosition (tokens : List Token) : List Token := tokens.foldr insertByPosition []

end Token

structure Command where
  text : String
  tokens : List Token
deriving DecidableEq, Repr

/-- The command with these tokens: blank ones are dropped and the others ordered by position. -/
def Command.ofTokens (text : String) (tokens : List Token) : Command :=
  ⟨text, Token.sortByPosition (tokens.filter fun t => !t.isBlank)⟩

end RecordFilter
