import Peg.Text.Basic

/-!
# Kinds of errors, and faults

Every error has a kind, which messages show by name. Two sorts of error concern a
run: an action may *raise* an error of its own, and a grammar may have a *fault*,
a reason why it cannot be run on a text at all. A fault is not a failure to match:
no alternative is tried after one.
-/

namespace Peg

/-- What sort of error an error is. -/
inductive Kind where
  -- kinds of the library
  | library
  | construction
  | grammarConfig
  | unresolvedRecursion
  | leftRecursion
  | parse
  | mismatch
  | choiceExhausted
  | exclusionViolation
  | transform
  | incompleteConsumption
  | nestingTooDeep
  -- kinds that any program knows
  | value
  | key
  | type
  | index
  | missingAttribute
  | recursion
  | runtime
  | stopIteration
  | assertion
  | arithmetic
  | zeroDivision
  | overflow
  | memory
  | unbound
  deriving DecidableEq, Repr

namespace Kind

/-- The name of a kind in messages. -/
def name : Kind → String
  | library => "CombiparseError"
  | construction => "ConstructionError"
  | grammarConfig => "GrammarConfigError"
  | unresolvedRecursion => "UnresolvedRecursionError"
  | leftRecursion => "LeftRecursionError"
  | parse => "ParseError"
  | mismatch => "MatchError"
  | choiceExhausted => "ChoiceExhaustedError"
  | exclusionViolation => "ExclusionViolationError"
  | transform => "TransformError"
  | incompleteConsumption => "IncompleteConsumptionError"
  | nestingTooDeep => "NestingTooDeepError"
  | value => "ValueError"
  | key => "KeyError"
  | type => "TypeError"
  | index => "IndexError"
  | missingAttribute => "AttributeError"
  | recursion => "RecursionError"
  | runtime => "RuntimeError"
  | stopIteration => "StopIteration"
  | assertion => "AssertionError"
  | arithmetic => "ArithmeticError"
  | zeroDivision => "ZeroDivisionError"
  | overflow => "OverflowError"
  | memory => "MemoryError"
  | unbound => "Unbound"

/-- The kinds that say that a grammar cannot be run. -/
def isConfig : Kind → Bool
  | grammarConfig | unresolvedRecursion | leftRecursion => true
  | _ => false

/-- The kinds of the errors that explain why a text was refused. -/
def isParse : Kind → Bool
  | parse | mismatch | choiceExhausted | exclusionViolation | transform
  | incompleteConsumption | nestingTooDeep => true
  | _ => false

end Kind

/-- An error that somebody may catch. Its full message is made when the error is shown,
and to make it can end in another error. -/
inductive Raised where
  | shown (kind : Kind) (message : Text)
  | unshown (kind : Kind) (cause : Raised)
  deriving DecidableEq, Repr

namespace Raised

def kind : Raised → Kind
  | shown kind _ | unshown kind _ => kind

/-- The full message, or the error of making it. -/
def message : Raised → Except Raised Text
  | shown _ message => .ok message
  | unshown _ cause => .error cause

/-- The error of a kind with a message that may not be made. -/
def ofMessage (kind : Kind) : Except Raised Text → Raised
  | .ok message => shown kind message
  | .error cause => unshown kind cause

end Raised

/-- A reason why a grammar cannot be run on a text, or a node not be described. -/
inductive Fault where
  /-- The placeholder has no target yet. -/
  | unresolved (placeholder : Text)
  /-- The placeholder is entered again where it was entered, nothing consumed. -/
  | leftRecursion (placeholder : Text) (pos : Int)
  /-- An error of an action is handed on as it is. -/
  | uncaught (raised : Raised)
  /-- The matches nest deeper than the limit. -/
  | tooDeep
  /-- The node has no kind that says how to match it. -/
  | kindless (description : Text)
  /-- Something else stands where a node belongs. -/
  | notANode (subject : Text)
  /-- A position lies before the text. -/
  | beforeText
  /-- A position is too large in size for an index. -/
  | hugeIndex
  /-- A bound of a range is no code point. -/
  | notACodePoint
  /-- A bound of a range is too large in size to be looked at as a code point. -/
  | hugeCodePoint
  /-- A bound of a range, whose type is named, is no integer. -/
  | notAnInteger (typeName : String)
  /-- A bound of a range cannot be compared with a code point; the types of what stands
  left and right of the comparison are named. -/
  | incomparable (left right : String)
  /-- A value of the named type stands where the text of a literal belongs. -/
  | notALiteral (typeName : String)
  /-- A value of the named type is among the texts of a literal. -/
  | notAmongLiterals (typeName : String)
  /-- A value of the named type is among the labels of an error. -/
  | notAmongLabels (index : Nat) (typeName : String)
  /-- An integer has too many digits to be shown. -/
  | hugeInteger
  /-- Something is to be longer than anything can be. -/
  | hugeLength
  /-- Something is to be longer than there is room for. -/
  | noRoom
  deriving DecidableEq, Repr

namespace Fault

/-- A fault as an error that somebody may catch. -/
def raised : Fault → Raised
  | unresolved placeholder =>
    .shown .unresolvedRecursion ("parse reached " ++ placeholder ++ " before it was resolved")
  | leftRecursion placeholder pos =>
    .shown .leftRecursion (placeholder ++ " re-entered at position " ++ Text.ofInt pos ++
      " without consuming input")
  | uncaught raised => raised
  | tooDeep => .shown .recursion "matches nest too deeply"
  | kindless description => .shown .type ("not a grammar node: " ++ description)
  | notANode subject => .shown .missingAttribute (subject ++ " has no attribute 'kind'")
  | beforeText => .shown .index "string index out of range"
  | hugeIndex => .shown .index "cannot fit 'int' into an index-sized integer"
  | notACodePoint => .shown .value "chr() arg not in range(0x110000)"
  | hugeCodePoint => .shown .overflow "Python int too large to convert to C int"
  | notAnInteger typeName =>
    .shown .type ("'" ++ typeName ++ "' object cannot be interpreted as an integer")
  | incomparable left right =>
    .shown .type ("'<=' not supported between instances of '" ++ left ++ "' and '" ++ right ++ "'")
  | notALiteral typeName =>
    .shown .type ("startswith first arg must be str or a tuple of str, not " ++ typeName)
  | notAmongLiterals typeName =>
    .shown .type ("tuple for startswith must only contain str, not " ++ typeName)
  | notAmongLabels index typeName =>
    .shown .type ("sequence item " ++ Text.ofNat index ++ ": expected str instance, " ++
      typeName ++ " found")
  | hugeInteger =>
    .shown .value ("Exceeds the limit (4300 digits) for integer string conversion; " ++
      "use sys.set_int_max_str_digits() to increase the limit")
  | hugeLength => .shown .overflow "cannot fit 'int' into an index-sized integer"
  | noRoom => .shown .memory []

def kind (f : Fault) : Kind := f.raised.kind

/-- The fault of an error that is handed on: the end of the stack is not told apart from the
limit. -/
def ofRaised (r : Raised) : Fault := if r.kind = .recursion then tooDeep else uncaught r

/-- The faults of the grammar as such, which nothing inside it can catch. -/
def isConfig (f : Fault) : Bool := f.kind.isConfig

/-! ## Limits of size -/

/-- Indices and lengths are less than this in size. -/
def indexLimit : Nat := 1 <<< 63

/-- There is room for things shorter than this. -/
def roomLimit : Nat := 1 <<< 31

/-- Whether an integer can be an index. -/
def isIndex (i : Int) : Bool := -indexLimit ≤ i && i < indexLimit

/-- The fault of making something of a length, if it cannot be made. -/
def ofLength? (n : Nat) : Option Fault :=
  if indexLimit ≤ n then some hugeLength else if roomLimit ≤ n then some noRoom else none

end Fault

end Peg
