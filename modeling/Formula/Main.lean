import Formula.Tour

/-!
# The program

Runs the walk through the operations. The variable `DEBUG` of the environment asks for the journal.
-/

def main : IO Unit := do
  let output := Formula.Tour.output (← IO.getEnv "DEBUG")
  for line in output.diagnostic do
    IO.eprintln line
  for line in output.standard do
    IO.println line
