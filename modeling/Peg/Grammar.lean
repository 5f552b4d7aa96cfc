import Peg.Error
import Peg.Log
import Peg.Matching

/-!
# Grammars

A grammar is a start node with a name. The name is the one it was given, or else
that of its start node when it is a placeholder with a name, or else the type of
the start node. Parsing with a grammar reports when it starts and how it ends; the
end of a run that has a fault is not reported. A grammar is also a value, though no
node can be made of it.
-/

namespace Peg

variable {α : Type}

/-- A start node and a name. -/
structure Grammar (α : Type) where
  start : Node α
  name : Value α

namespace Node

/-- The name of a node, which only placeholders have. -/
def name : Node α → Value α
  | .placeholder _ name => name
  | _ => .null

end Node

namespace Grammar

/-- A grammar as a value. -/
def toValue (g : Grammar α) : Value α := .grammar g.start g.name

/-- The name of a grammar that was given the name `label`. -/
def nameFor (start : Node α) (label : Value α) : Value α :=
  if label.isPresent then label
  else if start.name.isPresent then start.name
  else .text start.typeName

/-- How the end of a parse is reported. -/
def ending (name : Value α) : Except (Error α) (Value α) → List (Event α)
  | .ok _ => [.succeeded name]
  | .error (.refused e _) => [.refused name e.pos e.message]
  | .error _ => []

variable [Named α]

/-- A grammar from values of any sort. -/
def ofValues (isBound : Nat → Bool) (start label : Value α) : Except (Error α) (Grammar α) :=
  match start with
  | .node n => .ok ⟨n, nameFor n label⟩
  | v =>
    match v.render isBound with
    | .ok shown => .error (.notAStart shown)
    | .error f => .error (.fault f)

/-- Parses a value of any sort, which has to be a text. -/
def parse {β : Type} [Named β] (ctx : Context α) (limit : Nat) (g : Grammar α)
    (text : Value β) : List (Event α) × Except (Error α) (Value α) :=
  match text.length? with
  | none => ([], .error (.noLength text.typeName))
  | some length =>
    let answer :=
      match text with
      | .text t => (Peg.parse ctx limit g.start t).mapError Error.ofHalt
      | v => .error (.notText v.shortTypeName)
    (.started length g.name :: ending g.name answer, answer)

/-- Whether a parse refuses its text. An error of another kind is not an answer. -/
def verdict : Except (Error α) (Value α) → Except (Error α) Bool
  | .ok _ => .ok true
  | .error e => if e.kind.isParse then .ok false else .error e

/-- Whether a grammar parses a value. -/
def validate {β : Type} [Named β] (ctx : Context α) (limit : Nat) (g : Grammar α)
    (text : Value β) : List (Event α) × Except (Error α) Bool :=
  let (events, answer) := g.parse ctx limit text
  (events, verdict answer)

end Grammar

end Peg
