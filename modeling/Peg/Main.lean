import Peg.Demo

/-!
# The command line

Prints the transcript of the example grammar that is named: `json` or `calculator`.
-/

namespace Peg

/-- Prints a transcript, or the kind of the error that ended it. -/
def printTranscript : Except Raised Text → IO UInt32
  | .ok transcript => do
    IO.print transcript.toString
    return 0
  | .error r => do
    IO.eprintln r.kind.name
    return 1

/-- Prints the transcript that is asked for. -/
def runDemo : List String → IO UInt32
  | ["json"] => printTranscript Demo.json
  | ["calculator"] => printTranscript Demo.calculator
  | _ => do
    IO.eprintln "expected one argument: json or calculator"
    return 2

end Peg

def main (args : List String) : IO UInt32 := Peg.runDemo args
