import Peg.Script.Expr

/-!
# Signatures

A script calls builders, and its actions make errors of a given kind. A call gives
arguments by position. The signature of what is called says how many it takes; a call
with too few arguments is refused by naming those that are missing, one with too many
by counting them.
-/

namespace Peg.Script

/-- What can be given to something that is called. -/
inductive Signature where
  /-- Any number of arguments. -/
  | anyNumber
  | noArguments (name : String)
  /-- Parameters with names, and then a number of optional ones. Something that is
  called as a part of what it makes counts `own` arguments that no call gives. -/
  | parameters (name : String) (own : Nat) (required : List String) (optional : Nat)
  deriving DecidableEq, Repr

namespace Signature

/-- A number of things, the noun being in the plural unless there is just one. -/
def counted (n : Nat) (noun : String) : Text :=
  Text.ofNat n ++ " " ++ noun ++ (if n = 1 then "" else "s" : String)

/-- Quoted names as an enumeration. -/
def enumeration : List String → Text
  | [] => []
  | [a] => "'" ++ a ++ "'"
  | [a, b] => "'" ++ a ++ "' and '" ++ b ++ "'"
  | [a, b, c] => "'" ++ a ++ "', '" ++ b ++ "', and '" ++ c ++ "'"
  | a :: rest => "'" ++ a ++ "', " ++ enumeration rest

/-- How many arguments are too many. -/
def tooMany (name : String) (least most given : Nat) : Text :=
  let takes : Text :=
    if least = most then counted most "positional argument"
    else "from " ++ Text.ofNat least ++ " to " ++ Text.ofNat most ++ " positional arguments"
  name ++ "() takes " ++ takes ++ " but " ++ Text.ofNat given ++
    (if given = 1 then " was given" else " were given" : String)

/-- Which arguments are missing. -/
def tooFew (name : String) (missing : List String) : Text :=
  name ++ "() missing " ++ counted missing.length "required positional argument" ++ ": " ++
    enumeration missing

/-- What does not fit about a number of arguments, if they do not fit. -/
def complaint? (given : Nat) : Signature → Option Text
  | anyNumber => none
  | noArguments name => if given = 0 then none else some (name ++ "() takes no arguments")
  | parameters name own required optional =>
    let least := required.length
    if given < least then some (tooFew name (required.drop given))
    else if least + optional < given then
      some (tooMany name (own + least) (own + least + optional) (own + given))
    else none

end Signature

/-- The signature of a builder. -/
def Builder.signature : Builder → Signature
  | literal => .parameters "literal" 0 ["text"] 0
  | literalChoice | sequence | choice => .anyNumber
  | charRange => .parameters "char_range" 0 ["low", "high"] 0
  | optional => .parameters "optional" 0 ["node"] 0
  | many => .parameters "repeat" 0 ["node"] 0
  | oneOrMore => .parameters "repeat_at_least_once" 0 ["node"] 0
  | exactly => .parameters "repeat_exact" 0 ["node", "count"] 0
  | alternating => .parameters "repeat_alternating" 0 ["first", "second"] 0
  | capture => .parameters "capture" 0 ["label", "node"] 0
  | exclusion => .parameters "exclusion" 0 ["base", "forbidden"] 0
  | withAction => .parameters "with_action" 0 ["node", "func"] 0
  | rawNode => .noArguments "Node"
  | rawLiteral => .parameters "Literal.__init__" 1 ["text"] 0
  | rawRange => .parameters "Range.__init__" 1 ["low", "high"] 0
  | rawSequence => .parameters "Sequence.__init__" 1 ["nodes"] 0
  | rawChoice => .parameters "Choice.__init__" 1 ["nodes"] 0
  | rawMany => .parameters "Repeat.__init__" 1 ["node"] 0
  | rawExclusion => .parameters "Exclusion.__init__" 1 ["node", "forbidden"] 0
  | rawCapture => .parameters "Capture.__init__" 1 ["label", "node"] 0
  | rawPlaceholder => .parameters "Recursion.__init__" 1 [] 1
  | rawAction => .parameters "Action.__init__" 1 ["node", "func"] 0
  | rawEmpty => .noArguments "Empty"

/-- What it takes to make an error of a kind. -/
def errorSignature : Kind → Signature
  | .mismatch => .parameters "MatchError.__init__" 1 ["expected", "found", "pos"] 0
  | .choiceExhausted => .parameters "ChoiceExhaustedError.__init__" 1 ["errors", "pos"] 0
  | .exclusionViolation =>
    .parameters "ExclusionViolationError.__init__" 1 ["forbidden", "pos"] 0
  | .transform => .parameters "TransformError.__init__" 1 ["original", "pos"] 0
  | .incompleteConsumption =>
    .parameters "IncompleteConsumptionError.__init__" 1 ["value", "consumed", "pos"] 0
  | _ => .anyNumber

/-- An error of a kind that is made with nothing but a message. The message of a
missing key is the key as it is written in messages, and an error about nesting has a
message of its own. -/
def makeRaised (kind : Kind) (message : Text) : Except (Error Action) Raised :=
  match (errorSignature kind).complaint? 1 with
  | some complaint => .error (.badCall complaint)
  | none =>
    match kind with
    | .key => .ok (.shown .key message.quoted)
    | .nestingTooDeep => .ok (.shown .nestingTooDeep (Reason.tooDeep : Reason Action).text)
    | kind => .ok (.shown kind message)

end Peg.Script
