import Peg.Calculator.Number
import Peg.Matching

/-!
# The actions of the calculator grammar

Each action computes the value of one construct from the values of its parts. The
error of an operation is the error of the action. A result of another shape than
those that the grammar gives is refused.
-/

namespace Peg.Calculator

/-- The actions of the grammar, by the construct that they give a value to. -/
inductive Action where
  | token
  | number
  | group
  | factorials
  | negation
  | chain
  deriving DecidableEq, Repr

instance : Named Action where
  name
    | .token | .number | .group | .negation => "<lambda>"
    | .factorials => "_factorial"
    | .chain => "_fold"

namespace Action

variable {α : Type}

def ofNumber : Number → Value α
  | .int i => .int i
  | .float x => .float x

def number? : Value α → Option Number
  | .int i => some (.int i)
  | .float x => some (.float x)
  | _ => none

/-- The digits of a numeral, from the results of its digit nodes. -/
def digits? : Value α → Option (List Nat)
  | .tuple [.text first, .list rest] => do
    let ts ← rest.mapM fun
      | .text t => some t
      | _ => none
    return (first ++ ts.flatten).map CodePoint.digitValue
  | _ => none

/-- The operators of a chain with their right operands. -/
def links? : List (Value α) → Option (List (Operator × Number))
  | [] => some []
  | .tuple [.text op, v] :: vs => do
    let o ← Operator.ofText? op
    let n ← number? v
    let links ← links? vs
    return (o, n) :: links
  | _ => none

/-- Takes as many factorials, one of the other, as there are signs. -/
def factorialTimes (n : Number) : Nat → Except ArithmeticError Number
  | 0 => .ok n
  | k + 1 => do
    let m ← n.factorial
    factorialTimes m k

/-- Applies the operators of a chain from left to right. -/
def applyChain (n : Number) : List (Operator × Number) → Except ArithmeticError Number
  | [] => .ok n
  | (o, m) :: links => do
    let r ← o.apply n m
    applyChain r links

/-- What an action makes of a raw result, if it has the right shape. -/
def denote? : Action → Value α → Option (Except ArithmeticError (Value α))
  | token, .tuple [_, v, _] => some (.ok v)
  | group, .tuple [_, v, _] => some (.ok v)
  | number, v => (digits? v).map fun ds => (Number.ofDigits ds).map ofNumber
  | factorials, .tuple [v, .list signs] =>
    (number? v).map fun n => (factorialTimes n signs.length).map ofNumber
  | negation, .tuple [_, v] => (number? v).map fun n => .ok (ofNumber n.neg)
  | chain, .tuple [v, .list vs] => do
    let n ← number? v
    let links ← links? vs
    return (applyChain n links).map ofNumber
  | _, _ => none

/-- Performs an action. -/
def perform (a : Action) (v : Value α) : ActionResult α :=
  match a.denote? v with
  | some (.ok w) => .value w
  | some (.error e) => .raised e.raised
  | none => .raised (.shown .type "unexpected result")

end Action

end Peg.Calculator
