/-!
# Command line arguments

The arguments name a command and its switches and operands.  A switch has a long form, `--json`,
and some have a short one; short forms may be joined, as in `-pv`.  The input may follow its option
as the next argument or be attached, as in `--input=[]`, `-i[]` or `-i=[]`.  Every switch is given
at most once.  After `--` everything is an operand.

Arguments are judged from left to right, and the first that cannot stand where it does, or that asks
for help, settles the matter.
-/

namespace RecordFilter

inductive Switch where
  | verbose
  | json
  | pretty
  | compileOnly
  | explain
deriving DecidableEq, Repr

namespace Switch

def ofLong? : String → Option Switch
  | "verbose" => some verbose
  | "json" => some json
  | "pretty" => some pretty
  | "syntax-only" => some compileOnly
  | "explain" => some explain
  | _ => none

def ofShort? : Char → Option Switch
  | 'v' => some verbose
  | 'p' => some pretty
  | _ => none

end Switch

structure Accepted where
  switches : List Switch
  /-- Whether there is an option for the input. -/
  input : Bool
  /-- How many operands there may be; any number when there is no limit. -/
  mostOperands : Option Nat
deriving DecidableEq, Repr

structure Given where
  switches : List Switch
  input : Option String
  operands : List String
deriving DecidableEq, Repr

inductive Refusal where
  /-- The arguments ask for help. -/
  | help
  | badArguments
deriving DecidableEq, Repr

namespace Given

def nothing : Given := ⟨[], none, []⟩

/-- Adds a switch, which the command must accept and which must not have been given before. -/
def addSwitch (given : Given) (accepted : Accepted) : Option Switch → Except Refusal Given
  | none => .error .badArguments
  | some switch =>
    if accepted.switches.contains switch && !given.switches.contains switch then
      .ok { given with switches := given.switches ++ [switch] }
    else .error .badArguments

def addInput (given : Given) (text : String) : Except Refusal Given :=
  if given.input.isSome then .error .badArguments else .ok { given with input := some text }

def addOperand (accepted : Accepted) (given : Given) (operand : String) : Except Refusal Given :=
  if accepted.mostOperands.any (· ≤ given.operands.length) then .error .badArguments
  else .ok { given with operands := given.operands ++ [operand] }

/-- Reads joined short forms.  The answer tells whether the last one takes the next argument. -/
def readShorts (accepted : Accepted) (given : Given) : List Char → Except Refusal (Given × Bool)
  | [] => .ok (given, false)
  | c :: rest =>
    if c = 'h' then .error .help
    else if c = 'i' && accepted.input then
      match rest with
      | [] => .ok (given, true)
      | '=' :: text => do return (← given.addInput (String.ofList text), false)
      | text => do return (← given.addInput (String.ofList text), false)
    else do readShorts accepted (← given.addSwitch accepted (Switch.ofShort? c)) rest

/-- Reads a long form, without its dashes.  The answer tells whether it takes the next argument. -/
def readLong (accepted : Accepted) (given : Given) (form : List Char) :
    Except Refusal (Given × Bool) :=
  let name := String.ofList (form.takeWhile (· != '='))
  match form.dropWhile (· != '=') with
  | [] =>
    if name = "help" then .error .help
    else if name = "input" && accepted.input then .ok (given, true)
    else do return (← given.addSwitch accepted (Switch.ofLong? name), false)
  | _ :: text =>
    if name = "input" && accepted.input then do
      return (← given.addInput (String.ofList text), false)
    else .error .badArguments

/-- Reads one argument that begins with a dash and is not a lone one. -/
def readOption (accepted : Accepted) (given : Given) : List Char → Except Refusal (Given × Bool)
  | '-' :: form => readLong accepted given form
  | forms => readShorts accepted given forms

def isOption (argument : String) : Bool :=
  match argument.toList with
  | '-' :: _ :: _ => true
  | _ => false

def read (accepted : Accepted) (given : Given) : List String → Except Refusal Given
  | [] => .ok given
  | argument :: rest =>
    if argument = "--" then rest.foldlM (addOperand accepted) given
    else if isOption argument then do
      let (given, takesNext) ← readOption accepted given (argument.toList.drop 1)
      if takesNext then
        match rest with
        | [] => .error .badArguments
        | value :: rest =>
          if isOption value then .error .badArguments
          else do read accepted (← given.addInput value) rest
      else read accepted given rest
    else do read accepted (← given.addOperand accepted argument) rest

end Given

/-! ### Requests -/

inductive Request where
  | check (filters : List String) (input : Option String) (json pretty compileOnly explain : Bool)
  | properties (text : Option String) (input : Option String)
  | tokens (filter : String)
  | docs
  | doc (topic : String)
  | version
deriving DecidableEq, Repr

namespace Request

def commands : List String := ["check", "properties", "tokens", "docs", "doc", "help"]

def checkArguments : Accepted := ⟨[.verbose, .json, .pretty, .compileOnly, .explain], true, none⟩

def ofCommand (command : String) (arguments : List String) : Except Refusal Request :=
  match command with
  | "check" => do
    let given ← Given.read checkArguments .nothing arguments
    if given.operands.isEmpty then .error .badArguments
    else
      return .check given.operands given.input (given.switches.contains .json)
        (given.switches.contains .pretty) (given.switches.contains .compileOnly)
        (given.switches.contains .explain)
  | "properties" => do
    let given ← Given.read ⟨[.verbose], true, some 1⟩ .nothing arguments
    return .properties given.operands.head? given.input
  | "tokens" => do
    match (← Given.read ⟨[.verbose], false, some 1⟩ .nothing arguments).operands with
    | [] => .error .badArguments
    | filter :: _ => return .tokens filter
  | "docs" => do
    let _ ← Given.read ⟨[.verbose], false, some 0⟩ .nothing arguments
    return .docs
  | "doc" => do
    match (← Given.read ⟨[.verbose], false, some 1⟩ .nothing arguments).operands with
    | [] => .error .badArguments
    | topic :: _ => return .doc topic
  | "help" =>
    match arguments with
    | [] => .error .help
    | [topic] => if commands.contains topic then .error .help else .error .badArguments
    | _ => .error .badArguments
  | _ => .error .badArguments

/-- What a short form before the command does: the answer is whether it asks for the version. -/
def readLeadingShorts (verbose : Bool) : List Char → Except Refusal (Bool × Bool)
  | [] => .ok (verbose, false)
  | c :: rest =>
    if c = 'V' then .ok (verbose, true)
    else if c = 'h' then .error .help
    else if c = 'v' && !verbose then readLeadingShorts true rest
    else .error .badArguments

/-- The request that the arguments of the program make; `verbose` tells whether that switch has
    been given already. -/
def read (verbose : Bool) : List String → Except Refusal Request
  | [] => .error .badArguments
  | argument :: rest =>
    if argument = "--version" then .ok .version
    else if argument = "--help" then .error .help
    else if argument = "--verbose" then
      if verbose then .error .badArguments else read true rest
    else if Given.isOption argument then do
      let (isVerbose, asksVersion) ← readLeadingShorts verbose (argument.toList.drop 1)
      if asksVersion then return version else read isVerbose rest
    else ofCommand argument rest

def ofArguments (arguments : List String) : Except Refusal Request := read false arguments

def readsInput : Request → Bool
  | check _ input .. => input.isNone
  | properties _ input => input.isNone
  | _ => false

end Request

end RecordFilter
