import Peg.Binary64.Basic
import Peg.Text.Basic

/-!
# Values and grammar nodes

Matching turns texts into *values*: the raw results of nodes and whatever actions
make of them. A *node* is a grammar construct. The two types refer to each other,
since an action can return a node and a placeholder can have any value as name.

A node is a finite tree. Grammars become recursive through *placeholders*, which
refer to their target by number; what a number is bound to is not part of the
node (see `Peg.Bindings`). The type parameter names the actions: what an action
does is not part of the node either, so that a grammar is plain data.
-/

namespace Peg

mutual

/-- A result of matching. -/
inductive Value (α : Type) where
  | null
  | bool (b : Bool)
  | int (i : Int)
  | float (x : Binary64)
  | text (t : Text)
  | list (items : List (Value α))
  | tuple (items : List (Value α))
  /-- Entries in the order in which their keys came first. -/
  | dict (entries : List (Value α × Value α))
  /-- What a capture node makes of the result of its item. -/
  | captured (label value : Value α)
  | node (n : Node α)
  | action (act : α)
  /-- A start node and the name of a grammar (see `Peg.Grammar`). -/
  | grammar (start : Node α) (name : Value α)

/-- A grammar construct. -/
inductive Node (α : Type) where
  /-- A node without a kind, which nothing can match. -/
  | bare
  /-- The given text. -/
  | literal (t : Text)
  /-- One code point from `low` to `high`. -/
  | range (low high : Int)
  /-- One item after the other. -/
  | sequence (items : List (Node α))
  /-- The first alternative that matches. -/
  | choice (alternatives : List (Node α))
  /-- The item, as often as it matches and consumes something. -/
  | many (item : Node α)
  /-- The item, where the forbidden node does not match. -/
  | exclusion (item forbidden : Node α)
  /-- The item, its result labelled. -/
  | capture (label : Value α) (item : Node α)
  /-- Whatever the number is bound to; the name is for readers. -/
  | placeholder (id : Nat) (name : Value α)
  /-- The item, its result changed by an action. -/
  | action (item : Node α) (act : α)
  /-- The empty text. All optional parts share one empty node. -/
  | empty (shared : Bool)
  /-- A value that stands where a node belongs. -/
  | stray (value : Value α)
  /-- A literal made without a check of its text. -/
  | looseLiteral (text : Value α)
  /-- A range made without a check of its bounds. -/
  | looseRange (low high : Value α)

end

/-- What an action is as a value of its own. -/
inductive FunctionSort where
  /-- A function that a program defines. -/
  | defined
  /-- A function that every program has. -/
  | builtin
  /-- A type, which makes its values from others. -/
  | type
  /-- Something else that can be applied: the name of its type, and its form in
  messages. -/
  | other (typeName : String) (shown : Text)
  deriving DecidableEq, Repr

/-- Actions have names, which descriptions show. -/
class Named (α : Type) where
  name : α → Text
  sort : α → FunctionSort := fun _ => .defined

namespace Node

variable {α : Type}

/-- The name of the sort of construct that a node is. -/
def typeName : Node α → String
  | bare => "Node"
  | literal _ => "Literal"
  | range .. => "Range"
  | sequence _ => "Sequence"
  | choice _ => "Choice"
  | many _ => "Repeat"
  | exclusion .. => "Exclusion"
  | capture .. => "Capture"
  | placeholder .. => "Recursion"
  | action .. => "Action"
  | empty _ => "Empty"
  | stray _ => "object"
  | looseLiteral _ => "Literal"
  | looseRange .. => "Range"

/-- A value where a node is wanted. -/
def ofValue : Value α → Node α
  | .node n => n
  | v => .stray v

end Node

namespace Value

variable {α : Type}

/-- The name of the type of a value. -/
def typeName [Named α] : Value α → String
  | null => "NoneType"
  | bool _ => "bool"
  | int _ => "int"
  | float _ => "float"
  | text _ => "str"
  | list _ => "list"
  | tuple _ => "tuple"
  | dict _ => "dict"
  | captured .. => "Captured"
  | node n => n.typeName
  | action act =>
    match Named.sort act with
    | .defined => "function"
    | .builtin => "builtin_function_or_method"
    | .type => "type"
    | .other typeName _ => typeName
  | grammar .. => "Grammar"

/-- The name of the type of a value without the module that the type is from. -/
def shortTypeName [Named α] (v : Value α) : String :=
  String.ofList (v.typeName.toList.reverse.takeWhile (· ≠ '.')).reverse

/-- A value as the subject of a message about what it has not. -/
def subject [Named α] (v : Value α) : Text :=
  match v with
  | action act =>
    match Named.sort act with
    | .type => "type object '" ++ Named.name act ++ "'"
    | _ => "'" ++ v.typeName ++ "' object"
  | v => "'" ++ v.typeName ++ "' object"

/-- Whether a value counts as present: null, false, zero and everything empty does
not. -/
def isPresent : Value α → Bool
  | null => false
  | bool b => b
  | int i => i != 0
  | float x => !x.isZero
  | text t => !t.isEmpty
  | list items | tuple items => !items.isEmpty
  | dict entries => !entries.isEmpty
  | captured .. | node _ | action _ | grammar .. => true

/-- The length of a value that has one. -/
def length? : Value α → Option Nat
  | text t => some t.length
  | list items | tuple items => some items.length
  | dict entries => some entries.length
  | _ => none

mutual

/-- All texts in a value, in order, as one text: what the value was read from,
when it is the result of a grammar without actions. -/
def flat : Value α → Text
  | text t => t
  | list items | tuple items => flatAll items
  | captured _ v => v.flat
  | _ => []

def flatAll : List (Value α) → Text
  | [] => []
  | v :: vs => v.flat ++ flatAll vs

end

end Value

end Peg
