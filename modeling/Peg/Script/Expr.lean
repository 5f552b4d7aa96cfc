import Peg.Calculator.Grammar
import Peg.Json.Grammar

/-!
# Expressions and actions of scripts

An expression stands for a value: plain data, a name, a rule of an example grammar,
a node that is built from the values of other expressions, or an action.

A script attaches ready-made actions to the nodes that it builds. Most of them look
at the result that they are given the way any program would: its length, one of its
items, the integer that it writes. Others give the value of an expression, fail on
purpose, or parse the text of the result with another node of the script. The
actions of the two example grammars are among them, so that scripts can use the rules
of these grammars.

Expressions hold actions and actions hold expressions, which they keep as they are:
an expression inside an action is evaluated when the action is performed.
-/

namespace Peg.Script

/-- The functions that build a node. Those of the second group check nothing. -/
inductive Builder where
  | literal
  | literalChoice
  | charRange
  | sequence
  | choice
  | optional
  | many
  | oneOrMore
  | exactly
  | alternating
  | capture
  | exclusion
  | withAction
  -- unchecked
  | rawNode
  | rawLiteral
  | rawRange
  | rawSequence
  | rawChoice
  | rawMany
  | rawExclusion
  | rawCapture
  | rawPlaceholder
  | rawAction
  | rawEmpty
  deriving DecidableEq, Repr

/-- What a script can take from the example grammars: their rules, and they
themselves. -/
inductive ExampleRule where
  | json (r : Json.Rule)
  | calculator (r : Calculator.Rule)
  | jsonGrammar
  | calculatorGrammar
  deriving DecidableEq, Repr

mutual

/-- An expression. -/
inductive Expr where
  | null
  | bool (b : Bool)
  | int (i : Int)
  | float (x : Binary64)
  | text (t : Text)
  | list (items : List Expr)
  | tuple (items : List Expr)
  | dict (entries : List (Expr × Expr))
  | captured (label value : Expr)
  | name (n : Text)
  /-- The empty node that all optional parts share. -/
  | nothing
  | rule (r : ExampleRule)
  | build (b : Builder) (args : List Expr)
  | action (a : Action)

/-- An action of a script. -/
inductive Action where
  | length
  | integer
  | item (index : Int)
  | identity
  | join
  /-- Gives the value of an expression. -/
  | const (value : Expr)
  /-- Labels the result with the value of an expression. -/
  | tag (label : Expr)
  | fail (kind : Kind) (message : Text)
  /-- Fails on a result with the given text. -/
  | failOn (t : Text) (kind : Kind) (message : Text)
  /-- Parses the text of the result with the node of the given name. -/
  | sub (name : Text)
  /-- A value of the named type in place of an action. -/
  | uncallable (typeName : String)
  | json (a : Json.Action)
  | calculator (a : Calculator.Action)

end

instance : Named Action where
  name
    | .length => "len"
    | .integer => "int"
    | .item _ | .uncallable _ => "func"
    | .identity => "identity"
    | .join => "join"
    | .const _ => "const"
    | .tag _ => "tag"
    | .fail .. => "fail"
    | .failOn .. => "fail_if"
    | .sub _ => "sub"
    | .json a => Named.name a
    | .calculator a => Named.name a
  sort
    | .length => .builtin
    | .integer => .type
    | .item index =>
      .other "operator.itemgetter" ("operator.itemgetter(" ++ Text.ofInt index ++ ")")
    | .json a => Named.sort a
    | .calculator a => Named.sort a
    | _ => .defined

/-- A value of a script. -/
abbrev Result := Value Action

/-- What the part of an example grammar is. -/
def ExampleRule.value : ExampleRule → Result
  | .json r => .node (r.node .json)
  | .calculator r => .node (r.node .calculator)
  | .jsonGrammar => Json.grammar.toValue
  | .calculatorGrammar => Calculator.grammar.toValue

end Peg.Script
