import RecordFilter.Text.CapitalRuns
import RecordFilter.Text.Cased
/-!
Lower case.  `lowerChar` is the small form of one character on its own.  `lower` works on a whole
text, where one letter depends on its surroundings: a capital sigma that ends a word becomes `ς`,
any other becomes `σ`.
-/

namespace RecordFilter.Text

/-- The small form of one character: itself for all but capital letters, and two characters
    (`i` and a combining dot) for `İ`. -/
def lowerChar (c : Char) : List Char :=
  if c.toNat < 0x80 then [c.toLower]
  else if c = 'İ' then ['i', '\u0307']
  else
    match capitalRuns.findSome? (·.small? c.toNat) with
    | some n => [Char.ofNat n]
    | none => [c]

/-- The small forms of the characters of a text, each taken on its own. -/
def lowerEach (s : List Char) : List Char := s.flatMap lowerChar

/-- Whether the first character that is not passed over is a cased letter. -/
def startsCased (s : List Char) : Bool :=
  match s.dropWhile isCaseIgnorable with
  | [] => false
  | c :: _ => isCased c

/-- Lower case of the rest of a text; `afterCased` tells whether the last character before it
    that is not passed over is a cased letter. -/
def lowerFrom (afterCased : Bool) : List Char → List Char
  | [] => []
  | c :: rest =>
    let small :=
      -- A word goes on behind the sigma when a cased letter follows, marks aside.
      if c = 'Σ' then [if afterCased && !startsCased rest then 'ς' else 'σ'] else lowerChar c
    small ++ lowerFrom (if isCaseIgnorable c then afterCased else isCased c) rest

def lower (s : List Char) : List Char := lowerFrom false s

def lowercase (s : String) : String := String.ofList (lower s.toList)

end RecordFilter.Text
