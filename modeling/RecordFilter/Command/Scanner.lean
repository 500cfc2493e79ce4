import RecordFilter.Command.Lexer
/-!
# Splitting a command in one pass

The same tokens, from one pass over the characters.  The characters of a token are collected in a
buffer, already in lower case, and a character that is no part of the token ends it.  What a
character is depends on three things only: whether it stands between quotes, whether the run in the
buffer is one of operator characters, and whether there is a run at all.
-/

namespace RecordFilter

structure Scanner where
  /-- The number of characters taken so far. -/
  position : Nat
  /-- What there is of the next token, in lower case. -/
  buffer : List Char
  /-- Where the next token begins; of a quoted one, where its quote is. -/
  start : Nat
  inQuotes : Bool
  /-- Whether operator characters go on the run in the buffer. -/
  inOperator : Bool
  tokens : List Token
deriving DecidableEq, Repr

namespace Scanner

def initial : Scanner := ⟨0, [], 0, false, false, []⟩

/-- The first character of a run tells where the token begins; of a quoted token this is known from
    its quote. -/
def push (scanner : Scanner) (c : Char) : Scanner :=
  { scanner with
    start :=
      if scanner.buffer.isEmpty && !scanner.inQuotes then scanner.position else scanner.start
    buffer := scanner.buffer ++ Text.lowerChar c }

/-- Makes a token of the buffer, unless the buffer is empty. -/
def flush (scanner : Scanner) (quoted : Bool) : Scanner :=
  if scanner.buffer.isEmpty then scanner
  else
    { scanner with
      buffer := []
      tokens := scanner.tokens ++ [⟨String.ofList scanner.buffer, scanner.start, quoted⟩] }

def readQuote (scanner : Scanner) : Scanner :=
  if scanner.inQuotes then { scanner.flush true with inQuotes := false, inOperator := false }
  else
    -- What stands right in front of an opening quote is a token of its own.
    { scanner.flush false with
      inQuotes := true, start := scanner.position, inOperator := false }

def readParen (scanner : Scanner) (paren : Char) : Scanner :=
  let flushed := scanner.flush false
  { flushed with
    tokens := flushed.tokens ++ [⟨String.singleton paren, scanner.position, false⟩]
    inOperator := false }

def readBlank (scanner : Scanner) : Scanner := { scanner.flush false with inOperator := false }

/-- A character of the other kind than the run in the buffer ends this run. -/
def readChar (scanner : Scanner) (c : Char) : Scanner :=
  let operator := Token.isOperatorChar c
  if operator = scanner.inOperator then scanner.push c
  else { scanner.flush false with inOperator := operator }.push c

def read (scanner : Scanner) (c : Char) : Scanner :=
  if c = '"' then scanner.readQuote
  -- Between quotes parentheses, blanks and operators are text.
  else if scanner.inQuotes then scanner.push c
  else if c = '(' ∨ c = ')' then scanner.readParen c
  else if Text.isBlank c then scanner.readBlank
  else scanner.readChar c

def step (scanner : Scanner) (c : Char) : Scanner :=
  { scanner.read c with position := scanner.position + 1 }

/-- The tokens when no character is left.  A quote that was not closed still yields its text. -/
def finish (scanner : Scanner) : List Token := (scanner.flush scanner.inQuotes).tokens

end Scanner

/-- The command written as `s`, read in one pass. -/
def Command.scan (s : String) : Command :=
  let text := Text.trim s.toList
  Command.ofTokens (String.ofList text) (text.foldl Scanner.step .initial).finish

end RecordFilter
