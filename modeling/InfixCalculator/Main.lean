import InfixCalculator.CommandLine.Program

/-!
# The executable

Runs the program with the arguments and the journal filter of its environment.
There is no display to open a window on.
-/

namespace InfixCalculator.CommandLine

def Report.emit (report : Report) : IO UInt32 := do
  let output ← IO.getStdout
  output.putStr report.output
  output.flush
  IO.eprint report.errors
  return .ofNat report.code

/-- Runs the program.  When the output turns out to be closed, the run is that of a
closed output. -/
def execute (filter : Journal.Filter) (arguments : List String) : IO UInt32 := do
  let report (outputOpen : Bool) : Report :=
    (Environment.run { filter, outputOpen } arguments).withoutDisplay
  try (report true).emit
  catch _ => (report false).emit

end InfixCalculator.CommandLine

open InfixCalculator in
def main (arguments : List String) : IO UInt32 := do
  let filter := (← IO.getEnv "RUST_LOG").elim Journal.Filter.errors Journal.Filter.ofText
  CommandLine.execute filter arguments
