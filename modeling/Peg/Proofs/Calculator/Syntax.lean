import Peg.Calculator.Number
import Peg.Proofs.Runs

/-!
# Arithmetic expressions

The expressions of the calculator, written down without regard to how they are read. A
text is made of tokens with blanks around them, the tokens make up a syntax tree, and
the tree has a meaning:

```text
expr    = term (("+" | "-") term)*
term    = factor (("*" | "/") factor)*
factor  = "-" factor | atom "!"*
atom    = number | "(" expr ")"
```

A chain of operators is taken from the left, so a tree is built up along the chain: the
rules for what follows an operand are about the tree that there is so far. Sums and
products are chains that differ in their operators and operands only.

What the constructs of a tree mean is left open here.
-/

namespace Peg.Calculator

/-! ## Tokens -/

/-- One or more digits. -/
def IsNumeral (t : Text) : Prop := t ≠ [] ∧ AreDigits t

inductive Token where
  | numeral (digits : Text) (valid : IsNumeral digits)
  | operator (o : Operator)
  | bang
  | opening
  | closing

def Operator.sign : Operator → CodePoint
  | plus => CodePoint.ofChar '+'
  | minus => CodePoint.ofChar '-'
  | times => CodePoint.ofChar '*'
  | divide => CodePoint.ofChar '/'

def Token.text : Token → Text
  | numeral digits _ => digits
  | operator o => [o.sign]
  | bang => "!"
  | opening => "("
  | closing => ")"

/-- Space and horizontal tab. -/
def blankPoints : List CodePoint := [CodePoint.ofChar ' ', CodePoint.ofChar '\t']

abbrev AreBlanks (t : Text) : Prop := IsRun (· ∈ blankPoints) t

/-- The text is made of the tokens, each with blanks around it. -/
inductive Spells : List Token → Text → Prop
  | nil : Spells [] []
  | cons {k ks w₁ w₂ t} : AreBlanks w₁ → AreBlanks w₂ → Spells ks t →
    Spells (k :: ks) (w₁ ++ (k.text ++ (w₂ ++ t)))

/-! ## Trees -/

inductive Expr where
  | number (digits : Text)
  | group (e : Expr)
  | factorial (e : Expr)
  | negate (e : Expr)
  | binary (o : Operator) (a b : Expr)
  deriving DecidableEq

namespace Expr

/-- An expression with so many factorial signs after it. -/
def factorials (e : Expr) : Nat → Expr
  | 0 => e
  | k + 1 => e.factorial.factorials k

/-- How deep parentheses and prefix minus signs nest. -/
def nesting : Expr → Nat
  | number _ => 0
  | group e | negate e => e.nesting + 1
  | factorial e => e.nesting
  | binary _ a b => max a.nesting b.nesting

end Expr

/-- The chains of operators. -/
inductive Level where
  | sums
  | products

def Level.operators : Level → List Operator
  | sums => [.plus, .minus]
  | products => [.times, .divide]

mutual

inductive IsChain : Level → List Token → Expr → Prop
  | intro {l ks ls a e} : IsOperand l ks a → IsLinks l a ls e → IsChain l (ks ++ ls) e

/-- The tokens continue a chain with the tree `a` so far, and make the tree `e` of it. -/
inductive IsLinks : Level → (a : Expr) → List Token → (e : Expr) → Prop
  | nil {l a} : IsLinks l a [] a
  | cons {l o a b ks ls e} : o ∈ l.operators → IsOperand l ks b →
    IsLinks l (.binary o a b) ls e → IsLinks l a (.operator o :: (ks ++ ls)) e

inductive IsOperand : Level → List Token → Expr → Prop
  | term {ks e} : IsChain .products ks e → IsOperand .sums ks e
  | factor {ks e} : IsFactor ks e → IsOperand .products ks e

inductive IsFactor : List Token → Expr → Prop
  | negation {ks e} : IsFactor ks e → IsFactor (.operator .minus :: ks) (.negate e)
  | postfixed {ks e} (signs : Nat) : IsAtom ks e →
    IsFactor (ks ++ List.replicate signs .bang) (e.factorials signs)

inductive IsAtom : List Token → Expr → Prop
  | number {digits valid} : IsAtom [.numeral digits valid] (.number digits)
  | group {ks e} : IsChain .sums ks e → IsAtom (.opening :: (ks ++ [.closing])) (.group e)

end

/-- The text is an expression with the syntax tree. -/
def IsExpression (t : Text) (e : Expr) : Prop := ∃ ks, Spells ks t ∧ IsChain .sums ks e

/-! ## Meanings -/

/-- What the constructs of an expression mean. -/
structure Meaning (N : Type) where
  number : (digits : Text) → Except ArithmeticError N
  group : N → N
  factorial : N → Except ArithmeticError N
  negate : N → N
  binary : Operator → N → N → Except ArithmeticError N

/-- The meaning of an expression, or why it has none. -/
def Expr.eval {N : Type} (M : Meaning N) : Expr → Except ArithmeticError N
  | number digits => M.number digits
  | group e => (e.eval M).map M.group
  | factorial e => do
    let x ← e.eval M
    M.factorial x
  | negate e => (e.eval M).map M.negate
  | binary o a b => do
    let x ← a.eval M
    let y ← b.eval M
    M.binary o x y

/-- Operators with their right operands applied from left to right. -/
def Meaning.chain {N : Type} (M : Meaning N) (x : N) :
    List (Operator × N) → Except ArithmeticError N
  | [] => .ok x
  | (o, y) :: links => do
    let z ← M.binary o x y
    M.chain z links

def Meaning.factorials {N : Type} (M : Meaning N) (x : N) : Nat → Except ArithmeticError N
  | 0 => .ok x
  | k + 1 => do
    let y ← M.factorial x
    M.factorials y k

end Peg.Calculator
