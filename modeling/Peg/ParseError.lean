import Peg.Fault
import Peg.Text.Location
import Peg.Text.Quoted
import Peg.Value

/-!
# Parse errors

A parse error says why a text was refused, and where. Its position is the offset
at which the failing node started. Errors form trees: a choice all of whose
alternatives failed holds their errors in order, and every other error is a leaf.
Each error carries the labels of the captures that it left on its way up, the
innermost first.

An error is rendered as an outline: its own headline, and below it, one level
further in, the headlines of its children. An error that knows its text ends in an
excerpt of it. An error cannot be rendered if one of its tree has a label that is no
text.
-/

namespace Peg

/-- Why a node failed by itself. -/
inductive Reason (α : Type) where
  | message (text : Text)
  /-- Something else stands where `expected` was; the end of the text, when
  nothing does. -/
  | mismatch (expected : Text) (found : Option Text)
  /-- The forbidden part of an exclusion matches. -/
  | excluded (forbidden : Text)
  /-- An action raised an error of the kind and with the message. -/
  | transform (kind : Kind) (message : Text)
  /-- The grammar matches only the first `consumed` code points. -/
  | unconsumed (value : Value α) (consumed : Int)
  | tooDeep

/-- An error, and the errors it consists of. -/
inductive ParseError (α : Type) where
  | leaf (reason : Reason α) (pos : Int) (labels : List (Value α))
  | exhausted (children : List (ParseError α)) (pos : Int) (labels : List (Value α))

variable {α : Type}

namespace Reason

def kind : Reason α → Kind
  | message _ => .parse
  | mismatch .. => .mismatch
  | excluded _ => .exclusionViolation
  | transform .. => .transform
  | unconsumed .. => .incompleteConsumption
  | tooDeep => .nestingTooDeep

/-- What was found, in words. -/
def foundText : Option Text → Text
  | none | some [] => "end of input"
  | some t => t.quoted

def text : Reason α → Text
  | message t => t
  | mismatch expected found => "expected " ++ expected ++ ", but got " ++ foundText found
  | excluded forbidden => "excluded pattern " ++ forbidden ++ " matched"
  | transform kind t => "error in semantic action: " ++ kind.name ++ ": " ++ t
  | unconsumed _ consumed =>
    "unconsumed input after " ++ Text.ofInt consumed ++ " characters"
  | tooDeep => "input is nested too deeply to parse"

end Reason

namespace ParseError

def kind : ParseError α → Kind
  | leaf reason .. => reason.kind
  | exhausted .. => .choiceExhausted

def pos : ParseError α → Int
  | leaf _ pos _ | exhausted _ pos _ => pos

/-- The labels of the captures that the error left, the innermost first. -/
def labels : ParseError α → List (Value α)
  | leaf _ _ labels | exhausted _ _ labels => labels

def children : ParseError α → List (ParseError α)
  | leaf .. => []
  | exhausted children .. => children

def message : ParseError α → Text
  | leaf reason .. => reason.text
  | exhausted children .. =>
    "none of " ++ Text.ofNat children.length ++ " alternatives matched"

/-- The error after it left a capture. -/
def addLabel (label : Value α) : ParseError α → ParseError α
  | leaf reason pos labels => leaf reason pos (labels ++ [label])
  | exhausted children pos labels => exhausted children pos (labels ++ [label])

/-! ## The furthest error -/

/-- The better of the furthest error found so far below an error at `pos`, if any,
and a further candidate. The candidate has to lie strictly further than one
already found, but need not lie further than the error itself. -/
def further (pos : Int) (best : Option (ParseError α)) (candidate : ParseError α) :
    Option (ParseError α) :=
  match best with
  | none => if pos ≤ candidate.pos then some candidate else none
  | some b => if b.pos < candidate.pos then some candidate else some b

mutual

/-- The error below an error that started furthest into the text, if one started
no earlier than the error itself. -/
def furthestBelow? : ParseError α → Option (ParseError α)
  | leaf .. => none
  | exhausted children pos _ => furthestAmong pos none children

def furthestAmong (pos : Int) (best : Option (ParseError α)) :
    List (ParseError α) → Option (ParseError α)
  | [] => best
  | e :: es => furthestAmong pos (further pos best (e.furthestBelow?.getD e)) es

end

/-- The error of the tree that started furthest into the text: a leaf, provided
that no child starts before its parent. -/
def furthest (e : ParseError α) : ParseError α := e.furthestBelow?.getD e

/-! ## Rendering -/

section Rendering

variable [Named α]

/-- The texts that labels are, the first of which has the given index. A label can be
something else when its capture was made without checks, and then it cannot be shown. -/
def labelTexts (index : Nat) : List (Value α) → Except Fault (List Text)
  | [] => .ok []
  | .text t :: labels => do
    let ts ← labelTexts (index + 1) labels
    return t :: ts
  | v :: _ => .error (.notAmongLabels index v.typeName)

/-- The labels of an error, the outermost first, before its message. -/
def ownHeadline (e : ParseError α) : Except Fault Text :=
  if e.labels.isEmpty then .ok e.message
  else do
    let trail ← labelTexts 0 e.labels.reverse
    return "(" ++ Text.join "." trail ++ ") " ++ e.message

mutual

/-- The outline of an error tree. -/
def headline : ParseError α → Except Fault Text
  | leaf reason pos labels => ownHeadline (leaf reason pos labels)
  | exhausted children pos labels => do
    let own ← ownHeadline (exhausted children pos labels)
    let below ← outlineBelow children
    return own ++ below

/-- The outlines of the children of an error, each on lines of its own. -/
def outlineBelow : List (ParseError α) → Except Fault Text
  | [] => .ok []
  | e :: es => do
    let first ← e.headline
    let below ← outlineBelow es
    return "\n  - " ++ Text.replaceNewlines "\n    " first ++ below

end

/-- The full message of an error, with an excerpt of its text when it knows it. -/
def render (e : ParseError α) (text : Option Text) : Except Fault Text := do
  let headline ← e.headline
  match text with
  | none => return headline
  | some t => return headline ++ "\n" ++ t.excerpt e.pos Text.defaultLookahead

/-- The fault of showing a position of a text: the caret may stand too far right. -/
def placeFault? (t : Text) (pos : Int) : Option Fault :=
  Fault.ofLength? ((t.place pos).column - 1)

/-- The full message of an error, unless its excerpt cannot be written. -/
def shown (e : ParseError α) (text : Option Text) : Except Fault Text :=
  match text.bind (placeFault? · e.pos) with
  | none => e.render text
  | some f => e.headline >>= fun _ => .error f

/-- A parse error as an error that somebody may catch. -/
def raised (e : ParseError α) (text : Option Text) : Raised :=
  .ofMessage e.kind ((e.render text).mapError Fault.raised)

end Rendering

/-- A failed attempt as it is written in messages. -/
def failureText (e : ParseError α) : Text :=
  "Failure(" ++ e.message.quoted ++ ", pos=" ++ Text.ofInt e.pos ++ ")"

end ParseError

end Peg
