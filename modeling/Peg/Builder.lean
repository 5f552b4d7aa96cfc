import Peg.Bindings
import Peg.Describe
import Peg.Error
import Peg.Log

/-!
# Building grammars

The constructs that are made of simpler ones come first, as functions on nodes.
The checked builders follow. They take values of any sort, such as a program that
is itself read from somewhere hands them, and refuse what makes no node; so
whatever goes wrong with the shape of a grammar goes wrong when it is built. A
refusal shows the value at fault, and names its part in the construct.
-/

namespace Peg

variable {α : Type}

namespace Node

/-- The empty node that all optional parts share. -/
def nothing : Node α := .empty true

def optional (item : Node α) : Node α := .choice [item, nothing]

def oneOrMore (item : Node α) : Node α := .sequence [item, .many item]

def exactly (item : Node α) (count : Nat) : Node α := .sequence (List.replicate count item)

/-- Items with a separator between any two, at least one item. -/
def alternating (item separator : Node α) : Node α :=
  .sequence [item, .many (.sequence [separator, item])]

/-- An ordered choice between texts. -/
def literals (texts : List Text) : Node α := .choice (texts.map .literal)

/-- One code point from `low` to `high`. -/
def charRange (low high : CodePoint) : Node α := .range low.val high.val

end Node

/-! ## Checked builders -/

variable [Named α] (isBound : Nat → Bool)

/-- A refusal that shows the value at fault. A value that cannot be shown is a fault
instead. -/
def refuse {β : Type} (v : Value α) (cause : Text → BuildError) : Except (Error α) β :=
  match v.render isBound with
  | .ok shown => .error (.build (cause shown))
  | .error f => .error (.fault f)

namespace Builder

def node (role : Role) : Value α → Except (Error α) (Node α)
  | .node n => .ok n
  | v => refuse isBound v (.notANode role)

def nodes (role : Role) : List (Value α) → Except (Error α) (List (Node α))
  | [] => .ok []
  | v :: vs => do
    let n ← node isBound role v
    let ns ← nodes role vs
    return n :: ns

def text (cause : Text → BuildError) : Value α → Except (Error α) Text
  | .text t => .ok t
  | v => refuse isBound v cause

def character (cause : Text → BuildError) : Value α → Except (Error α) CodePoint
  | .text [c] => .ok c
  | v => refuse isBound v cause

/-- A number of repetitions; a truth value is no number here. -/
def count : Value α → Except (Error α) Nat
  | .int (.ofNat n) => .ok n
  | v => refuse isBound v .badCount

/-- The values with the members of each list or tuple in its place. -/
def flattened : List (Value α) → List (Value α)
  | [] => []
  | .list items :: vs | .tuple items :: vs => items ++ flattened vs
  | v :: vs => v :: flattened vs

def literal (t : Value α) : Except (Error α) (Node α) := do
  let t ← text isBound .literalNotText t
  return .literal t

def literalChoice (ts : List (Value α)) : Except (Error α) (Node α) := do
  let texts ← ts.mapM (text isBound .literalNotText)
  return Node.literals texts

def charRange (low high : Value α) : Except (Error α) (Node α) := do
  let l ← character isBound .lowNotCharacter low
  let h ← character isBound .highNotCharacter high
  if l ≤ h then return Node.charRange l h
  else throw (.build (.reversedRange (Text.quoted [l]) (Text.quoted [h])))

def sequence (items : List (Value α)) : Except (Error α) (Node α) := do
  let ns ← nodes isBound .sequenceItem items
  return .sequence ns

/-- An ordered choice. A list or tuple of alternatives counts as its members. -/
def choice (alternatives : List (Value α)) : Except (Error α) (Node α) := do
  let ns ← nodes isBound .alternative (flattened alternatives)
  return .choice ns

def optional (item : Value α) : Except (Error α) (Node α) := do
  let n ← node isBound .optionalItem item
  return n.optional

def many (item : Value α) : Except (Error α) (Node α) := do
  let n ← node isBound .repeatItem item
  return .many n

def oneOrMore (item : Value α) : Except (Error α) (Node α) := do
  let n ← node isBound .repeatItem item
  return n.oneOrMore

def exactly (item times : Value α) : Except (Error α) (Node α) := do
  let n ← node isBound .repeatItem item
  let k ← count isBound times
  match Fault.ofLength? k with
  | some f => throw (.fault f)
  | none => return n.exactly k

def alternating (item separator : Value α) : Except (Error α) (Node α) := do
  let n ← node isBound .repeatedItem item
  let s ← node isBound .separator separator
  return n.alternating s

def capture (label item : Value α) : Except (Error α) (Node α) := do
  let l ← text isBound .labelNotText label
  let n ← node isBound .capturedItem item
  return .capture (.text l) n

def exclusion (base forbidden : Value α) : Except (Error α) (Node α) := do
  let b ← node isBound .exclusionBase base
  let f ← node isBound .excludedItem forbidden
  return .exclusion b f

def withAction (item act : Value α) : Except (Error α) (Node α) :=
  match act with
  | .action a => do
    let n ← node isBound .actionItem item
    return .action n a
  | v => refuse isBound v .notAnAction

/-- A call of a builder with its arguments. -/
inductive Call (α : Type) where
  | literal (text : Value α)
  | literalChoice (texts : List (Value α))
  | charRange (low high : Value α)
  | sequence (items : List (Value α))
  | choice (alternatives : List (Value α))
  | optional (item : Value α)
  | many (item : Value α)
  | oneOrMore (item : Value α)
  | exactly (item times : Value α)
  | alternating (item separator : Value α)
  | capture (label item : Value α)
  | exclusion (base forbidden : Value α)
  | withAction (item act : Value α)

def Call.arguments : Call α → List (Value α)
  | .literal v | .optional v | .many v | .oneOrMore v => [v]
  | .literalChoice vs | .sequence vs | .choice vs => vs
  | .charRange v w | .exactly v w | .alternating v w | .capture v w | .exclusion v w
  | .withAction v w => [v, w]

/-- What a call gives. -/
def Call.apply : Call α → Except (Error α) (Node α)
  | .literal t => Builder.literal isBound t
  | .literalChoice ts => Builder.literalChoice isBound ts
  | .charRange low high => Builder.charRange isBound low high
  | .sequence items => Builder.sequence isBound items
  | .choice alternatives => Builder.choice isBound alternatives
  | .optional item => Builder.optional isBound item
  | .many item => Builder.many isBound item
  | .oneOrMore item => Builder.oneOrMore isBound item
  | .exactly item times => Builder.exactly isBound item times
  | .alternating item separator => Builder.alternating isBound item separator
  | .capture label item => Builder.capture isBound label item
  | .exclusion base forbidden => Builder.exclusion isBound base forbidden
  | .withAction item act => Builder.withAction isBound item act

end Builder

/-! ## Resolving placeholders -/

omit isBound

/-- Gives a placeholder its target, once and for all. The event that reports it
describes the target, and when that has a fault the fault is the answer, although
the placeholder is bound by then. -/
def resolve (b : Bindings α) (id : Nat) (name target : Value α) :
    Bindings α × Except (Error α) (Event α) :=
  let placeholder : Node α := .placeholder id name
  match Builder.node b.isBound .recursionTarget target with
  | .error e => (b, .error e)
  | .ok n =>
    if b.isBound id then
      match placeholder.describe b.isBound Node.usualDepth with
      | .ok shown => (b, .error (.alreadyResolved shown))
      | .error f => (b, .error (.fault f))
    else
      let bound := b.bind id n
      let event : Except Fault (Event α) := do
        let shown ← placeholder.describe bound.isBound Node.usualDepth
        let target ← n.describe bound.isBound 1
        return .resolved shown target
      (bound, event.mapError .fault)

end Peg
