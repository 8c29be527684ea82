import Augment.CommandLine

/-!
# The program

Reads the arguments, augments the sample class, writes the result and ends with status 0.  A
command line that cannot be read is answered with a summary of the options and status 2.
-/

namespace Augment.CommandLine

/-- The summary of the options. -/
def usage : String :=
  "usage: augment [--no-getter] [--setter] [--access public|protected|package|private]\n" ++
    "  [--no-constructor] [--quiet] [--show-before]\n"

end Augment.CommandLine

open Augment in
/-- The command. -/
def main (arguments : List String) : IO UInt32 := do
  match CommandLine.parse? arguments with
  | none =>
    (← IO.getStderr).putStr CommandLine.usage
    return 2
  | some options =>
    let output := CommandLine.perform options
    (← IO.getStdout).putStr output.stdout
    (← IO.getStderr).putStr output.stderr
    return if output.failed then 1 else 0
