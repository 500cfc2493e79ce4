import RecordFilter.Text.Blank
import RecordFilter.Text.Lowercase
/-!
The form in which names and strings are compared (`fold`: trimmed, lower case), and searching one
text in another.
-/

namespace RecordFilter.Text

def trimmed (s : String) : String := String.ofList (trim s.toList)

/-- The form of a name or a string in which letter case and outer white space play no part. -/
def fold (s : String) : String := lowercase (trimmed s)

def startsWith (s pattern : String) : Bool := pattern.toList.isPrefixOf s.toList

def endsWith (s pattern : String) : Bool := pattern.toList.isSuffixOf s.toList

def occursIn (pattern : List Char) : List Char → Bool
  | [] => pattern.isEmpty
  | c :: rest => pattern.isPrefixOf (c :: rest) || occursIn pattern rest

def contains (s pattern : String) : Bool := occursIn pattern.toList s.toList

end RecordFilter.Text
