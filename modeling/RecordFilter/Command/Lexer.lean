import RecordFilter.Command
/-!
# Splitting a command into tokens

Outside quotes a token is a parenthesis, a longest run of operator characters, or a longest run of
characters that are none of these, no white space and no quote.  Between two quotes everything is
one token, and a quote that is not closed runs to the end.  Every text splits; what is no operator
and no property is found out later, where it can be reported with its position.

Tokens are lower case, character by character.
-/

namespace RecordFilter

namespace Token

/-- The characters that operators are written with, words apart. -/
def isOperatorChar (c : Char) : Bool :=
  c == '<' || c == '>' || c == '=' || c == '&' || c == '|' || c == '!'

def isWordChar (c : Char) : Bool :=
  !(isOperatorChar c || Text.isBlank c || c == '"' || c == '(' || c == ')')

/-- The characters that go on a run which begins with `c`. -/
def continuesRun (c : Char) : Char → Bool := if isOperatorChar c then isOperatorChar else isWordChar

def ofRun (run : List Char) (position : Nat) (quoted : Bool) : Token :=
  ⟨String.ofList (Text.lowerEach run), position, quoted⟩

/-- The tokens of the rest of a command that starts at a position. -/
def lexFrom (position : Nat) : List Char → List Token
  | [] => []
  | c :: rest =>
    if c = '"' then
      -- Nothing between the quotes is special, and the end of the text closes the last one.
      let body := rest.takeWhile (· != '"')
      ofRun body position true ::
        lexFrom (position + body.length + 2) ((rest.dropWhile (· != '"')).drop 1)
    else if c = '(' ∨ c = ')' then ofRun [c] position false :: lexFrom (position + 1) rest
    else if Text.isBlank c then lexFrom (position + 1) rest
    else
      -- A word and an operator end each other, so no white space is needed between them.
      let run := c :: rest.takeWhile (continuesRun c)
      ofRun run position false :: lexFrom (position + run.length) (rest.dropWhile (continuesRun c))
termination_by s => s.length
decreasing_by
  · have := (List.dropWhile_sublist (l := rest) (· != '"')).length_le
    simp only [List.length_drop, List.length_cons]; omega
  · simp
  · simp
  · have := (List.dropWhile_sublist (l := rest) (continuesRun c)).length_le
    simp only [List.length_cons]; omega

end Token

/-- The command written as `s`, without the white space at its ends. -/
def Command.ofText (s : String) : Command :=
  let text := Text.trim s.toList
  Command.ofTokens (String.ofList text) (Token.lexFrom 0 text)

end RecordFilter
