import Peg.Builder
import Peg.Script.Object
import Peg.Script.Signature

/-!
# Evaluating expressions

The parts of an expression are evaluated from left to right, and the first error is
the error of the whole. Evaluation makes things: every evaluation of an expression
that makes a node, an action or a captured value makes a new one, and so does that of
NaN. It therefore carries the number of the next thing, which is also where
placeholders get their numbers from.
-/

namespace Peg.Script

/-- What an evaluation looks at: the objects that names stand for, and which
placeholders have a target. -/
structure Scope where
  lookUp : Text → Option Object
  isBound : Nat → Bool

/-- Evaluation: it may fail, and it carries the number of the next thing. -/
abbrev Eval := ExceptT (Error Action) (StateM Nat)

/-- A number that nothing has yet. -/
def newNumber : Eval Nat := getModify (· + 1)

/-- A new thing with the given value. -/
def newThing (v : Result) : Eval Object := do
  let n ← newNumber
  return .thing (.made n) v

/-- A new placeholder. -/
def newPlaceholder (name : Result) : Eval (Node Action) := do
  let n ← newNumber
  return .placeholder n name

/-- The items of a value, each of which stands where a node belongs. -/
def childrenOf : Result → Except (Error Action) (List (Node Action))
  | .list items | .tuple items => .ok (items.map .ofValue)
  | .text t => .ok (t.map fun c => .ofValue (.text [c]))
  | .dict entries => .ok (entries.map fun (k, _) => .ofValue k)
  | v => .error (.notIterable v.typeName)

namespace Builder

/-- A node of unchecked parts. -/
def applyRaw : Builder → List Result → Eval (Node Action)
  | rawNode, [] => return .bare
  | rawLiteral, [.text t] => return .literal t
  | rawLiteral, [v] => return .looseLiteral v
  | rawRange, [.int low, .int high] => return .range low high
  | rawRange, [low, high] => return .looseRange low high
  | rawSequence, [items] => return .sequence (← childrenOf items)
  | rawChoice, [alternatives] => return .choice (← childrenOf alternatives)
  | rawMany, [item] => return .many (.ofValue item)
  | rawExclusion, [item, forbidden] => return .exclusion (.ofValue item) (.ofValue forbidden)
  | rawCapture, [label, item] => return .capture label (.ofValue item)
  | rawPlaceholder, [] => newPlaceholder .null
  | rawPlaceholder, [name] => newPlaceholder name
  | rawAction, [item, .action act] => return .action (.ofValue item) act
  | rawAction, [item, v] => return .action (.ofValue item) (.uncallable v.typeName)
  | rawEmpty, [] => return .empty false
  | b, args => throw (.badCall ((b.signature.complaint? args.length).getD []))

/-- The call of a checked builder, if it takes as many arguments. -/
def call? : Builder → List Result → Option (Peg.Builder.Call Action)
  | literal, [t] => some (.literal t)
  | literalChoice, ts => some (.literalChoice ts)
  | charRange, [low, high] => some (.charRange low high)
  | sequence, items => some (.sequence items)
  | choice, items => some (.choice items)
  | optional, [item] => some (.optional item)
  | many, [item] => some (.many item)
  | oneOrMore, [item] => some (.oneOrMore item)
  | exactly, [item, times] => some (.exactly item times)
  | alternating, [item, separator] => some (.alternating item separator)
  | capture, [label, item] => some (.capture label item)
  | exclusion, [base, forbidden] => some (.exclusion base forbidden)
  | withAction, [item, act] => some (.withAction item act)
  | _, _ => none

/-- The node that a builder makes of its arguments. -/
def apply (isBound : Nat → Bool) (b : Builder) (args : List Result) : Eval (Node Action) :=
  match b.call? args with
  | some call => call.apply isBound
  | none => b.applyRaw args

end Builder

/-- Entries with one more, whose key must have a hash. -/
def insertEntry (k o : Object) (entries : List (Object × Object)) :
    Eval (List (Object × Object)) :=
  match k.hashKey with
  | .ok _ => return Object.setEntry k o entries
  | .error typeName => throw (.unhashable typeName)

/-- An action as a thing. Two actions are functions that are there already. -/
def Action.toObject : Action → Eval Object
  | .length => return .thing .length (.action .length)
  | .integer => return .thing .integer (.action .integer)
  | a => newThing (.action a)

mutual

/-- The object that an expression stands for. -/
def Expr.eval (scope : Scope) : Expr → Eval Object
  | .null => return .plain .null
  | .bool b => return .plain (.bool b)
  | .int i => return .plain (.int i)
  | .float x => if x.isNaN then newThing (.float x) else return .plain (.float x)
  | .text t => return .plain (.text t)
  | .list items => do
    let os ← Expr.evalAll scope items
    return .ofList os
  | .tuple items => do
    let os ← Expr.evalAll scope items
    return .ofTuple os
  | .dict entries => do
    let es ← Expr.evalEntries scope entries []
    return .ofEntries es
  | .captured label value => do
    let l ← label.eval scope
    let o ← value.eval scope
    let n ← newNumber
    return .ofCaptured (.made n) l o
  | .name n =>
    match scope.lookUp n with
    | some o => return o
    | none => throw (.unbound n)
  | .nothing => return .thing .nothing (.node .nothing)
  | .rule r => return .thing (.rule r) r.value
  | .build b args => do
    let os ← Expr.evalAll scope args
    let n ← b.apply scope.isBound (Object.values os)
    newThing (.node n)
  | .action a => a.toObject

def Expr.evalAll (scope : Scope) : List Expr → Eval (List Object)
  | [] => return []
  | e :: es => do
    let o ← e.eval scope
    let os ← Expr.evalAll scope es
    return o :: os

def Expr.evalEntries (scope : Scope) :
    List (Expr × Expr) → List (Object × Object) → Eval (List (Object × Object))
  | [], done => return done
  | (k, v) :: es, done => do
    let key ← k.eval scope
    let value ← v.eval scope
    let done ← insertEntry key value done
    Expr.evalEntries scope es done

end

end Peg.Script
