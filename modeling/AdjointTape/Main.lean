import AdjointTape.CommandLine.Program

/-!
# Command line
-/

/-- Prints the outcome of the program for its arguments.  It stops where a result leaves its
range. -/
def main (arguments : List String) : IO UInt32 := do
  let outcome := AdjointTape.Outcome.ofArguments .stops arguments
  IO.print outcome.output
  IO.eprint outcome.errors
  return outcome.status
