import Peg.Main
import Peg.Script.Session
import Peg.Workshop
import Peg.Proofs.Outcome
import Peg.Proofs.Graph
import Peg.Proofs.Step
import Peg.Proofs.Position
import Peg.Proofs.Termination
import Peg.Proofs.Limit
import Peg.Proofs.Regular
import Peg.Proofs.Reading
import Peg.Proofs.Agreement
import Peg.Proofs.Derivation
import Peg.Proofs.Guarded
import Peg.Proofs.Runs
import Peg.Proofs.Lookahead
import Peg.Proofs.Yield
import Peg.Proofs.Simulation
import Peg.Proofs.Offset
import Peg.Proofs.Construction
import Peg.Proofs.Marks
import Peg.Proofs.LateBinding
import Peg.Proofs.Safety
import Peg.Proofs.Frames
import Peg.Proofs.Exhaustion
import Peg.Proofs.Erasure
import Peg.Proofs.ErrorTree
import Peg.Proofs.Labels
import Peg.Proofs.Uncaught
import Peg.Proofs.Furthest
import Peg.Proofs.ErrorPosition
import Peg.Proofs.LabelTrail
import Peg.Proofs.Totality
import Peg.Proofs.Answer
import Peg.Proofs.FailurePath
import Peg.Proofs.Lines
import Peg.Proofs.Outline
import Peg.Proofs.Resolution
import Peg.Proofs.Room
import Peg.Proofs.Ending
import Peg.Proofs.Refactoring
import Peg.Proofs.Repetition
import Peg.Proofs.LongestMatch
import Peg.Proofs.Binary64.Rounding
import Peg.Proofs.Binary64.Arithmetic
import Peg.Proofs.Json.Number
import Peg.Proofs.Json.String
import Peg.Proofs.Json.Members
import Peg.Proofs.Json.Separated
import Peg.Proofs.Json.Document
import Peg.Proofs.Json.Loads
import Peg.Proofs.Json.Totality
import Peg.Proofs.Json.LongestNumber
import Peg.Proofs.Json.NumberRange
import Peg.Proofs.Json.StringDecoding
import Peg.Proofs.Calculator.Syntax
import Peg.Proofs.Calculator.Arithmetic
import Peg.Proofs.Calculator.Tokens
import Peg.Proofs.Calculator.Expression
import Peg.Proofs.Calculator.Evaluation
import Peg.Proofs.Calculator.Partial
import Peg.Proofs.Calculator.Failure
import Peg.Proofs.Location
import Peg.Proofs.Equality
import Peg.Proofs.Levels
import Peg.Proofs.Examples
