/-
The program: it reads the problem file that its command line names, decides the problem and prints the answer, under
the usual limit on digits.
-/
import Halfspace.CommandLine

open Halfspace

/-- decide the problem in a file -/
def decideFile (file : String) (request : Request) : IO UInt32 := do
  let result := CommandLine.decide OutsideEngine.standIn request (← IO.FS.readFile file)
  for line in result.printed do
    IO.println line
  match result.exit with
  | .ok code => return code
  | .error fault =>
    IO.eprintln fault.message
    return 1

def main (args : List String) : IO UInt32 := do
  match CommandLine.readWords args DigitLimit.usual with
  | some { file := some file, request } => decideFile file request
  | _ =>
    IO.eprintln "usage: FILE [--engine highs|simplex] [--precision DIGITS] [--max-iterations LIMIT] [--verbose]"
    return 2
