import RecordFilter.Program
/-!
# The command `fq`

Reads the standard input when the request needs it, and writes the outcome.
-/

open RecordFilter

def main (arguments : List String) : IO UInt32 := do
  let needsInput := match Request.ofArguments arguments with
    | .ok request => request.readsInput
    | .error _ => false
  let stdin ← if needsInput then (← IO.getStdin).readToEnd else pure ""
  let outcome := Program.outcome arguments stdin
  IO.print outcome.stdout
  IO.eprint outcome.stderr
  return outcome.exitCode.toUInt32
