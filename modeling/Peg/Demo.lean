import Peg.Calculator.Grammar
import Peg.Json.Grammar

/-!
# Demonstrations

A transcript for each of the two example grammars: a few inputs, and what becomes
of them.
-/

namespace Peg.Demo

/-- The line between the inputs of the JSON transcript. -/
def rule : Text := List.replicate 40 (CodePoint.ofChar '-')

def jsonInputs : List String :=
  ["null", "true", "false", "\"hello\"", "\"esc\\\\nline \\u00e9\"", "123", "-12.34e+2", "[]",
    "[1, 2, 3]", "[ \"a\", null, true, 3.14 ]", "\x7b\x7d",
    "\x7b\"a\": 1, \"b\": [true, false], \"c\": \x7b\"x\": \"y\"\x7d\x7d", "[1, 2,]"]

/-- What one input of the JSON grammar leads to. -/
def jsonOutcome (t : Text) : Except Raised Text :=
  let shown : Except Raised Text := do
    let v ← (Json.loads (.text t : Value Json.Action)).2.mapError Error.raised
    (v.display Json.context.bindings.isBound).mapError Fault.raised
  match shown with
  | .ok shown => .ok ("PARSED: " ++ shown)
  | .error r => do
    let message ← r.message
    return "ERROR: " ++ message

/-- The part of the JSON transcript about one input. -/
def jsonEntry (input : String) : Except Raised Text := do
  let outcome ← jsonOutcome input
  return "INPUT: " ++ input ++ "\n" ++ outcome ++ "\n" ++ rule ++ "\n"

/-- The transcript of the JSON grammar, unless an error in it cannot be shown. -/
def json : Except Raised Text := do
  let entries ← jsonInputs.mapM jsonEntry
  return entries.flatten

def calculatorInputs : List String :=
  ["1 + 2 * 3", "-1 + 4", "2 * 3 + 4", "2 * (3 + 4)", "3! + 1", "5! / 5"]

/-- One line of the calculator transcript, unless the input has no value. -/
def calculatorLine (input : String) : Except Raised Text := do
  let v ← (Calculator.evaluate (.text input : Value Calculator.Action)).2.mapError Error.raised
  let shown ← (v.display Calculator.context.bindings.isBound).mapError Fault.raised
  return input ++ " -> " ++ shown ++ "\n"

/-- The transcript of the calculator, unless one of the inputs has no value. -/
def calculator : Except Raised Text := do
  let lines ← calculatorInputs.mapM calculatorLine
  return lines.flatten

end Peg.Demo
