import Peg.Builder
import Peg.Calculator.Action
import Peg.Grammar

/-!
# The calculator grammar

```text
expr    = term (("+" | "-") term)*
term    = factor (("*" | "/") factor)*
factor  = "-" factor | postfix
postfix = (number | "(" expr ")") "!"*
```

Spaces and tabs may stand around every token. The nodes are given for any type of
actions that contains the actions of the grammar. The numbers of the placeholders
are others than those of the JSON grammar, so that both can be used together.
-/

namespace Peg.Calculator

variable {α : Type}

def blanks : Node α := .many (.literals [" ", "\t"])

def exprId : Nat := 3
def factorId : Nat := 4

def exprRef : Node α := .placeholder exprId (.text "expr")
def factorRef : Node α := .placeholder factorId (.text "factor")

variable (act : Action → α)

/-- A node with blanks around it. -/
def token (item : Node α) : Node α := .action (.sequence [blanks, item, blanks]) (act .token)

def number : Node α :=
  .action (.oneOrMore (.charRange (CodePoint.ofChar '0') (CodePoint.ofChar '9'))) (act .number)

/-- An expression in parentheses. -/
def group : Node α :=
  .action (.sequence [token act (.literal "("), exprRef, token act (.literal ")")]) (act .group)

/-- A number or a group, and factorial signs after it. -/
def postfixed : Node α :=
  .action
    (.sequence [.choice [token act (number act), group act], .many (token act (.literal "!"))])
    (act .factorials)

def factor : Node α :=
  .choice [
    .action (.sequence [token act (.literal "-"), factorRef]) (act .negation),
    postfixed act]

def term : Node α :=
  .action (factorRef.alternating (token act (.literals ["*", "/"]))) (act .chain)

def expr : Node α :=
  .action ((term act).alternating (token act (.literals ["+", "-"]))) (act .chain)

/-- The rules of the grammar that can be used on their own. -/
inductive Rule where
  | blanks
  | exprRef
  | factorRef
  | number
  | postfixed
  | factor
  | term
  | expr
  deriving DecidableEq, Repr

/-- The node of a rule. -/
def Rule.node : Rule → Node α
  | .blanks => Calculator.blanks
  | .exprRef => Calculator.exprRef
  | .factorRef => Calculator.factorRef
  | .number => Calculator.number act
  | .postfixed => Calculator.postfixed act
  | .factor => Calculator.factor act
  | .term => Calculator.term act
  | .expr => Calculator.expr act

/-- The targets of the placeholders of the grammar, together with others. -/
def bindInto (b : Bindings α) : Bindings α :=
  (b.bind factorId (factor act)).bind exprId (expr act)

/-! ## Evaluating an expression -/

/-- The grammar on its own. -/
def context : Context Action where
  bindings := bindInto id .empty
  perform := Action.perform

def grammar {α : Type} : Grammar α := ⟨exprRef, .text "calculator"⟩

/-- The value of an expression. The argument has to be a text. -/
def evaluate {β : Type} [Named β] (text : Value β) :
    List (Event Action) × Except (Error Action) (Value Action) :=
  grammar.parse context defaultLimit text

end Peg.Calculator
