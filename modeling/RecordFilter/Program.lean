import RecordFilter.Arguments
import RecordFilter.Check
import RecordFilter.Check.Report
import RecordFilter.Manual
import RecordFilter.Schema.Listing
/-!
# The program

What the program `fq` writes for a request, and with which exit code it ends.
-/

namespace RecordFilter

structure Outcome where
  exitCode : Nat
  stdout : String
  stderr : String
deriving DecidableEq, Repr

namespace Outcome

def success (stdout : String) (stderr : String) : Outcome := ⟨0, stdout, stderr⟩

def failure (message : String) : Outcome := ⟨1, "", message ++ "\n"⟩

end Outcome

namespace Program

def unknownTopic (topic : String) : String :=
  "Unknown topic: '" ++ topic ++ "'\nRun 'fq docs' to see available topics."

def page (topic : String) : Except String String :=
  match Topic.ofName? topic with
  | some topic => .ok topic.page
  | none => .error (unknownTopic topic)

def usage : String :=
  Manual.page [
    "Usage: fq [-v] COMMAND",
    "",
    "  check FILTER...    Run filters against JSON records",
    "  properties [TEXT]  List the properties found in the records",
    "  tokens FILTER      Show how a filter is split into tokens",
    "  docs               List documentation topics",
    "  doc TOPIC          Show documentation for a specific topic"]

def runCheck (check : Check) (json pretty : Bool) : Outcome :=
  match check.run with
  | .error error => .failure error.message
  | .ok (.valid filter) => .success ("Filtering: " ++ filter ++ "\nSyntax is valid\n") ""
  | .ok (.matches filter records) =>
    let heading := "Filtering: " ++ filter ++ "\n"
    if json then
      let array := Json.array (records.map Record.toJson)
      .success ((if pretty then array.pretty else array.compact) ++ "\n") heading
    else
      .success (heading ++ Check.report records ++ toString records.length ++ " matching\n") ""

def runProperties (text : Option String) (input : String) : Outcome :=
  match Record.load input with
  | .error error => .failure error.message
  | .ok records => .success ((Schema.infer records).listing text) ""

/-- What the program writes for a request; `stdin` is its standard input. -/
def run (request : Request) (stdin : String) : Outcome :=
  match request with
  | .check filters input json pretty compileOnly explain =>
    runCheck ⟨filters, some (input.getD stdin), compileOnly, explain⟩ json pretty
  | .properties text input => runProperties text (input.getD stdin)
  | .tokens filter =>
    .success
      (String.join ((Command.ofText filter).tokens.map fun token => token.shown ++ "\n")) ""
  | .docs => .success Manual.overview ""
  | .doc topic =>
    match page topic with
    | .ok text => .success text ""
    | .error message => .failure message
  | .version => .success "fq 0.1.0\n" ""

def refuse : Refusal → Outcome
  | .help => .success usage ""
  | .badArguments => ⟨2, "", usage⟩

def outcome (arguments : List String) (stdin : String) : Outcome :=
  match Request.ofArguments arguments with
  | .ok request => run request stdin
  | .error refusal => refuse refusal

end Program

end RecordFilter
