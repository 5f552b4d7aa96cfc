import Peg.Outcome

/-!
# Errors of the library's operations

An operation other than matching can fail because its arguments make no grammar,
because a run ended without an answer, or because it was given a value of the wrong
type. The cause of an error is kept as such; its wording is in one function.
-/

namespace Peg

/-- The part that a node plays in the construct it is given to. -/
inductive Role where
  | sequenceItem
  | alternative
  | optionalItem
  | repeatItem
  | repeatedItem
  | separator
  | capturedItem
  | exclusionBase
  | excludedItem
  | actionItem
  | recursionTarget
  deriving DecidableEq, Repr

def Role.name : Role → String
  | sequenceItem => "sequence item"
  | alternative => "choice alternative"
  | optionalItem => "optional item"
  | repeatItem => "repeat item"
  | repeatedItem => "repeated item"
  | separator => "separator"
  | capturedItem => "captured item"
  | exclusionBase => "exclusion base"
  | excludedItem => "excluded item"
  | actionItem => "action item"
  | recursionTarget => "recursion target"

/-- Why arguments make no node. The value at fault is shown. -/
inductive BuildError where
  | notANode (role : Role) (shown : Text)
  | literalNotText (shown : Text)
  | labelNotText (shown : Text)
  | lowNotCharacter (shown : Text)
  | highNotCharacter (shown : Text)
  /-- The lower bound of a range is greater than the upper one. -/
  | reversedRange (low high : Text)
  /-- The number of repetitions is no natural number. -/
  | badCount (shown : Text)
  | notAnAction (shown : Text)
  deriving DecidableEq, Repr

def BuildError.message : BuildError → Text
  | notANode role shown => role.name ++ " must be a grammar node, got " ++ shown
  | literalNotText shown => "literal text must be a str, got " ++ shown
  | labelNotText shown => "capture label must be a str, got " ++ shown
  | lowNotCharacter shown => "range lower bound must be a single character, got " ++ shown
  | highNotCharacter shown => "range upper bound must be a single character, got " ++ shown
  | reversedRange low high =>
    "range lower bound " ++ low ++ " is greater than upper bound " ++ high
  | badCount shown => "repeat count must be a non-negative int, got " ++ shown
  | notAnAction shown => "semantic action must be callable, got " ++ shown

/-- Why an operation gave no result. -/
inductive Error (α : Type) where
  | build (cause : BuildError)
  /-- A placeholder that has a target is to be given another. -/
  | alreadyResolved (placeholder : Text)
  | fault (f : Fault)
  /-- A text was refused; some errors do not know their text. -/
  | refused (error : ParseError α) (text : Option Text)
  /-- A value of the named type stands where a text is wanted. -/
  | notText (typeName : String)
  /-- A value of the named type stands where something with a length is wanted. -/
  | noLength (typeName : String)
  | notAStart (shown : Text)
  | immutableNode (typeName : String)
  | immutableResult
  | unhashable (typeName : String)
  /-- A value of the named type stands where something with items is wanted. -/
  | notIterable (typeName : String)
  /-- Something has no part of the given name. -/
  | noPart (subject part : Text)
  /-- A call whose arguments do not fit, and what does not fit about them. -/
  | badCall (complaint : Text)
  | unbound (name : Text)

namespace Error

variable {α : Type}

def ofHalt : Halt α → Error α
  | .refused error text => refused error (some text)
  | .fault f => fault f

def kind : Error α → Kind
  | build _ => .construction
  | alreadyResolved _ => .unresolvedRecursion
  | fault f => f.kind
  | refused error _ => error.kind
  | notText _ | noLength _ | notAStart _ | unhashable _ | notIterable _ | badCall _ => .type
  | immutableNode _ | immutableResult | noPart .. => .missingAttribute
  | unbound _ => .unbound

/-- The full message of an error. -/
def message [Named α] : Error α → Except Raised Text
  | build cause => .ok cause.message
  | alreadyResolved placeholder => .ok ("recursion " ++ placeholder ++ " is already resolved")
  | fault f => f.raised.message
  | refused error text => (error.render text).mapError Fault.raised
  | notText typeName => .ok ("input must be a str, got " ++ typeName)
  | noLength typeName => .ok ("object of type '" ++ typeName ++ "' has no len()")
  | notAStart shown => .ok ("start must be a grammar node, got " ++ shown)
  | immutableNode typeName => .ok (typeName ++ " nodes are immutable")
  | immutableResult => .ok "Captured results are immutable"
  | unhashable typeName => .ok ("unhashable type: '" ++ typeName ++ "'")
  | notIterable typeName => .ok ("'" ++ typeName ++ "' object is not iterable")
  | noPart subject part => .ok (subject ++ " has no attribute '" ++ part ++ "'")
  | badCall complaint => .ok complaint
  | unbound name => .ok name

/-- An error as one that somebody may catch. -/
def raised [Named α] (e : Error α) : Raised := .ofMessage e.kind e.message

end Error

end Peg
