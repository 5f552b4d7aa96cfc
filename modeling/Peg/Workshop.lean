import Peg.Builder
import Peg.Matching

/-!
# Workshops

A program that uses the library calls builders, declares placeholders before their
targets exist, resolves them when they do, and matches and describes nodes at any time in
between. A workshop is what such a program has at a moment: the nodes that it was given
so far, and all that a match needs to know. An operation takes it to the next moment and
gives an answer or an error, and after an error the program goes on.

Placeholders are numbered in the order in which they are declared. What the actions do is
settled before the first operation; a match may nest as deep as the caller leaves room
for, so its limit is a part of the operation.
-/

namespace Peg

/-- What a program has at a moment. -/
structure Workshop (α : Type) where
  /-- The nodes that were made so far, the last one first. -/
  nodes : List (Node α)
  context : Context α
  nextNumber : Nat

/-- What a program does next. -/
inductive Operation (α : Type) where
  | build (call : Builder.Call α)
  /-- Makes a placeholder. -/
  | declare (name : Value α)
  /-- Calls the resolver of a placeholder, which is given by its number and name. -/
  | resolve (id : Nat) (name target : Value α)
  | attempt (limit : Nat) (node : Node α) (text : Text) (pos : Int)
  | parse (limit : Nat) (node : Node α) (text : Text)
  | describe (node : Node α) (depth : Int)

/-- The answer of an operation that has one. -/
inductive Answer (α : Type) where
  | node (n : Node α)
  | attempt (a : Attempt α)
  | value (v : Value α)
  | text (t : Text)

namespace Workshop

variable {α : Type}

/-- A workshop in which nothing has been made. -/
def new (perform : α → Value α → ActionResult α) : Workshop α := ⟨[], ⟨.empty, perform⟩, 0⟩

def isBound (w : Workshop α) : Nat → Bool := w.context.bindings.isBound

/-- The workshop with one more node. -/
def receive (w : Workshop α) (n : Node α) : Workshop α := { w with nodes := n :: w.nodes }

/-- The workshop with other targets. -/
def rebind (w : Workshop α) (b : Bindings α) : Workshop α :=
  { w with context := { w.context with bindings := b } }

variable [Named α]

/-- Does one operation. -/
def step (w : Workshop α) : Operation α → Workshop α × Except (Error α) (Answer α)
  | .build call =>
    match call.apply w.isBound with
    | .ok n => (w.receive n, .ok (.node n))
    | .error e => (w, .error e)
  | .declare name =>
    let n := .placeholder w.nextNumber name
    ({ w.receive n with nextNumber := w.nextNumber + 1 }, .ok (.node n))
  | .resolve id name target =>
    let (bindings, event) := Peg.resolve w.context.bindings id name target
    (w.rebind bindings, event.map fun _ => .node (.ofValue target))
  | .attempt limit node text pos =>
    (w, ((Peg.attempt w.context limit node text pos).map .attempt).mapError .ofHalt)
  | .parse limit node text =>
    (w, ((Peg.parse w.context limit node text).map .value).mapError .ofHalt)
  | .describe node depth => (w, ((node.describe w.isBound depth).map .text).mapError .fault)

/-- Does operations one after the other, whatever their answers are. -/
def run (w : Workshop α) (ops : List (Operation α)) : Workshop α :=
  ops.foldl (fun w op => (w.step op).1) w

@[simp] theorem run_nil (w : Workshop α) : w.run [] = w := rfl

@[simp] theorem run_cons (w : Workshop α) (op : Operation α) (ops : List (Operation α)) :
    w.run (op :: ops) = (w.step op).1.run ops := rfl

end Workshop

end Peg
