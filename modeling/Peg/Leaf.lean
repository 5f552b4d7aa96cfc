import Peg.Describe
import Peg.Outcome
import Peg.Text.Input
import Peg.Value.Equality

/-!
# Matching a leaf

The leaves of a grammar match code points of the text itself. A literal matches
where its text stands, a range matches one code point. A leaf that does not match
fails with what it expected and what it found, and what it expected is a description
of it; so a leaf that cannot be described has a fault where it should fail, and none
where it matches.

A leaf made without checks can hold any value. Its match goes as far as the value
allows: a literal can hold a tuple of texts any of which may stand at the position,
and a range can have any numbers as bounds.
-/

namespace Peg

variable {α : Type}

/-- A failure at `pos` whose reason shows a description. -/
def failShowing (pos : Int) (description : Except Fault Text) (reason : Text → Reason α) :
    Match α :=
  match description with
  | .ok t => .failure (.leaf (reason t) pos [])
  | .error f => .fault f

/-- A given text at a position. -/
def matchLiteral (input : Input) (t : Text) (pos : Int) : Match α :=
  let stop := pos + t.length
  if input.holds t pos then .success (.text t) stop
  else .failure (.leaf (.mismatch t.quoted (some (input.slice pos stop))) pos [])

/-- The code point at a position that is not past the end of the text. A position too
far in front of the text is no index at all. -/
def codePointAt (input : Input) (pos : Int) : Except Fault CodePoint :=
  if pos < -Fault.indexLimit then .error .hugeIndex
  else
    match input.at? pos with
    | some c => .ok c
    | none => .error .beforeText

/-- A code point with a property at a position. The property may have a fault of its
own, and `description` says what was expected. -/
def matchCodePoint (input : Input) (holds : CodePoint → Except Fault Bool)
    (description : Except Fault Text) (pos : Int) : Match α :=
  if input.size ≤ pos then failShowing pos description (.mismatch · none)
  else
    match codePointAt input pos with
    | .error f => .fault f
    | .ok c =>
      match holds c with
      | .error f => .fault f
      | .ok true => .success (.text [c]) (pos + 1)
      | .ok false => failShowing pos description (.mismatch · (some [c]))

/-- A code point in a range at a position. -/
def matchRange (input : Input) (low high : Int) (pos : Int) : Match α :=
  matchCodePoint input (fun c => .ok (low ≤ c.val ∧ c.val ≤ high)) (describeRange low high) pos

/-! ## Leaves made without checks -/

/-- The order of numbers; NaN is neither before nor after any. -/
def Exact.le : Exact → Exact → Bool
  | .nan, _ | _, .nan => false
  | .infinite true, _ | _, .infinite false => true
  | .infinite false, _ | _, .infinite true => false
  | .units u, .units v => u ≤ v

variable [Named α]

/-- Whether a code point is between two values; the lower is looked at first. -/
def isBetween (low high : Value α) (c : CodePoint) : Except Fault Bool :=
  let x := Exact.ofInt c.val
  match low.asNumber? with
  | none => .error (.incomparable low.typeName "int")
  | some l =>
    if !l.le x then .ok false
    else
      match high.asNumber? with
      | none => .error (.incomparable "int" high.typeName)
      | some h => .ok (x.le h)

/-- A code point between two values at a position. -/
def matchLooseRange (input : Input) (low high : Value α) (pos : Int) : Match α :=
  matchCodePoint input (isBetween low high) (describeLooseRange low high) pos

/-- Whether any of the given texts stands at a position; a value that is no text is
a fault if no text before it does. -/
def holdsAny (input : Input) (pos : Int) : List (Value α) → Except Fault Bool
  | [] => .ok false
  | .text t :: vs => if input.holds t pos then .ok true else holdsAny input pos vs
  | v :: _ => .error (.notAmongLiterals v.typeName)

/-- A literal that holds any value. A tuple of texts counts as long as it has items,
whichever of them stands at the position. -/
def matchLooseLiteral (isBound : Nat → Bool) (input : Input) (text : Value α) (pos : Int) :
    Match α :=
  match text with
  | .text t => matchLiteral input t pos
  | .tuple items =>
    let stop := pos + items.length
    match holdsAny input pos items with
    | .error f => .fault f
    | .ok true => .success text stop
    | .ok false =>
      failShowing pos (text.render isBound) (.mismatch · (some (input.slice pos stop)))
  | v => .fault (.notALiteral v.typeName)

end Peg
