import RecordFilter.Text.Fold
/-!
# The manual

The pages that the program shows about the filter language, one for each topic, and an overview.
-/

namespace RecordFilter

inductive Topic where
  | language
  | operators
  | properties
  | types
  | filtering
deriving DecidableEq, Repr

namespace Topic

def names : List (String × Topic) :=
  [("syntax", language), ("operators", operators), ("ops", operators), ("properties", properties),
   ("property", properties), ("columns", properties), ("types", types), ("type", types),
   ("values", types), ("filtering", filtering), ("filters", filtering), ("filter", filtering)]

def ofName? (name : String) : Option Topic := names.lookup (Text.fold name)

end Topic

namespace Manual

def page (lines : List String) : String := String.join (lines.map fun line => line ++ "\n")

def overview : String := page [
  "FQ DOCUMENTATION",
  "",
  "fq filters records by the properties collected for them: file sizes, dates,",
  "EXIF tags, FITS headers and anything else an ingester extracts. A filter is",
  "a comparison, or several joined with && and ||.",
  "",
  "DOCUMENTATION TOPICS",
  "",
  "  syntax            Tokens, quoting and grouping with parentheses",
  "  operators         Comparison, string and logical operators",
  "  properties        Property names, namespaces and abbreviations",
  "  types             How literals are converted and compared",
  "  filtering         Applying several filters one after another",
  "",
  "QUICK REFERENCE",
  "",
  "  length < 65535",
  "  \"focal len\" == 55 && filename contains \"asc\"",
  "  (exif.iso >= 800 || fits.exptime > 30) && filename endswith .raw",
  "",
  "Run 'fq doc <topic>' for detailed documentation."]

def languagePage : String := page [
  "SYNTAX",
  "",
  "A filter is a sequence of words separated by spaces:",
  "",
  "  <property> <operator> <value>",
  "",
  "Words are case-insensitive. Operators split words on their own, so",
  "`length<100` is the same as `length < 100`.",
  "",
  "QUOTING",
  "",
  "Double quotes keep spaces, operator characters and parentheses together:",
  "",
  "  \"focal len\" == 55",
  "  filename contains \"a && b\"",
  "",
  "An unterminated quote runs to the end of the filter.",
  "",
  "GROUPING",
  "",
  "Parentheses group conditions:",
  "",
  "  (length < 100 || length > 1000) && filename endswith .txt",
  "",
  "Without parentheses, operators have no precedence and chains nest to the",
  "right:",
  "",
  "  a < 1 && b > 2 || c == 3    is    (a < 1) && ((b > 2) || (c == 3))",
  "",
  "ERRORS",
  "",
  "Errors repeat the filter and point at the offending word:",
  "",
  "  Invalid operator: is",
  "  length is 4",
  "         ^"]

def operatorsPage : String := page [
  "OPERATORS",
  "",
  "COMPARISON",
  "",
  "  ==   equal",
  "  !=   not equal",
  "  <    less than",
  "  <=   less than or equal",
  "  >    greater than",
  "  >=   greater than or equal",
  "",
  "STRING (case-insensitive, text properties only)",
  "",
  "  startswith   filename startswith img_",
  "  endswith     filename endswith .jpg",
  "  contains     filename contains vacation",
  "",
  "LOGICAL",
  "",
  "  &&   both conditions hold",
  "  ||   either condition holds",
  "",
  "A boolean property on its own is a condition:",
  "",
  "  hidden && length > 0",
  "",
  "MISSING PROPERTIES",
  "",
  "A record that lacks any property named in the filter never matches, even",
  "when the property only appears on one side of ||."]

def propertiesPage : String := page [
  "PROPERTIES",
  "",
  "Properties are grouped in namespaces, written `namespace.name`:",
  "",
  "  exif.iso",
  "  fits.exptime",
  "",
  "A short name is enough when only one namespace has it:",
  "",
  "  iso >= 800",
  "",
  "When several do, fq asks for the full name:",
  "",
  "  Property 'width' exists in multiple directories: exif, png",
  "  Please specify the desired directory like this: \"exif.width\"",
  "",
  "Any unambiguous prefix works too:",
  "",
  "  file contains asc      (filename)",
  "",
  "Run 'fq properties [TEXT]' to list what your records carry."]

def typesPage : String := page [
  "TYPES",
  "",
  "Every property has a type, taken from the first record that has a value",
  "for it:",
  "",
  "  String     text, compared case-insensitively",
  "  Integer    whole numbers",
  "  Float      decimal numbers",
  "  DateTime   RFC 3339 strings in the input",
  "  Boolean    true / false",
  "",
  "The value on the right of an operator is converted to the property's type.",
  "`55` is a number next to `length` and text next to `filename`.",
  "",
  "Dates can be written as:",
  "",
  "  2021-03-04",
  "  \"2021-03-04 10:30:00\"",
  "  2021-03-04T10:30:00",
  "  2021-03-04T10:30:00+02:00",
  "",
  "A date with a space in it must be quoted, like any other value with",
  "spaces. A value that does not convert is an error:",
  "",
  "  Invalid value: cannot convert 'big' to Integer"]

def filteringPage : String := page [
  "FILTERING",
  "",
  "`fq check` takes one or more filters. Each one narrows the result of the",
  "ones before it:",
  "",
  "  fq check -i photos.json 'length < 65535' 'filename contains asc'",
  "",
  "is the same as",
  "",
  "  fq check -i photos.json 'length < 65535 && filename contains asc'",
  "",
  "DIRECTORIES",
  "",
  "When every match is a directory, fq lists what those directories contain",
  "instead, so a filter on a directory-level property finds its files:",
  "",
  "  fq check -i photos.json 'album == summer'",
  "",
  "OPTIONS",
  "",
  "  --syntax-only   compile the filters, don't evaluate them",
  "  --explain       also print null guards and earlier filters",
  "  --json          print matching records as JSON",
  "  --pretty        indent the JSON output",
  "  --verbose       log parsing and compilation (or set RUST_LOG)"]

end Manual

def Topic.page : Topic → String
  | language => Manual.languagePage
  | operators => Manual.operatorsPage
  | properties => Manual.propertiesPage
  | types => Manual.typesPage
  | filtering => Manual.filteringPage

end RecordFilter
