import Mathlib.Data.Nat.Factorial.Basic
import Peg.Proofs.Calculator.Syntax

/-!
# Arithmetic

What the constructs of an expression mean in arithmetic, said without the functions that
the actions perform. Integers are taken together exactly, and a quotient of them is the
nearest float. As soon as an operand is a float, both are; the left one is converted first.
The floats and their rounding are taken as given.

The functions of the actions are organised by operations, and the meaning by the types of
the operands: that the two agree is an equation for every construct.
-/

namespace Peg.Calculator

/-! ## The meaning -/

/-- The number that a numeral writes in decimal. -/
def numeralValue (digits : Text) : Nat :=
  Nat.ofDigits 10 (digits.reverse.map fun c => c.val - 0x30)

/-- The integer as a float, if it is not too large. -/
def floatOfInteger (i : Int) : Except ArithmeticError Binary64 :=
  (Binary64.ofInt? i).elim (.error .integerTooLarge) .ok

namespace Operator

/-- What an operator makes of two integers. -/
def onIntegers (i j : Int) : Operator → Except ArithmeticError Number
  | plus => .ok (.int (i + j))
  | minus => .ok (.int (i - j))
  | times => .ok (.int (i * j))
  | divide =>
    if j = 0 then .error .divisionByZero
    else (Binary64.ofQuotient? i j).elim (.error .quotientTooLarge) fun x => .ok (.float x)

/-- What an operator makes of two floats. -/
def onFloats (x y : Binary64) : Operator → Except ArithmeticError Number
  | plus => .ok (.float (x + y))
  | minus => .ok (.float (x - y))
  | times => .ok (.float (x * y))
  | divide => if y.isZero then .error .floatDivisionByZero else .ok (.float (x / y))

end Operator

/-- The arithmetic of integers and floats. -/
def arithmetic : Meaning Number where
  number digits :=
    if 4300 < digits.length then .error (.tooManyDigits digits.length)
    else .ok (.int (numeralValue digits))
  group x := x
  factorial
    | .int i => .ok (.int (i.toNat.factorial : Nat))
    | .float _ => .error .factorialOfFloat
  negate
    | .int i => .int (-i)
    | .float x => .float (-x)
  binary o
    | .int i, .int j => o.onIntegers i j
    | .int i, .float y => do
      let x ← floatOfInteger i
      o.onFloats x y
    | .float x, .int j => do
      let y ← floatOfInteger j
      o.onFloats x y
    | .float x, .float y => o.onFloats x y

/-! ## The functions of the actions -/

theorem ofDigits_eq_number (digits : Text) :
    Number.ofDigits (digits.map CodePoint.digitValue) = arithmetic.number digits := by
  show (if 4300 < (digits.map CodePoint.digitValue).length then _ else _) = _
  rw [List.length_map, Numeral.ofDigits_eq, ← List.map_reverse]
  rfl

theorem Number.product_eq (n : Nat) : product n = n.factorial := by
  rw [product]
  induction n with
  | zero => rfl
  | succ n ih =>
      rw [List.range_succ, List.foldl_append, ih, List.foldl_cons, List.foldl_nil,
        Nat.factorial_succ, Nat.mul_comm]

theorem Number.factorial_eq (x : Number) : x.factorial = arithmetic.factorial x := by
  cases x with
  | int i => rw [factorial, product_eq]; rfl
  | float x => rfl

theorem Number.neg_eq (x : Number) : x.neg = arithmetic.negate x := by
  cases x <;> rfl

theorem Number.toFloat_int (i : Int) : (Number.int i).toFloat = floatOfInteger i := rfl

theorem Number.toFloat_float (x : Binary64) : (Number.float x).toFloat = pure x := rfl

/-- An operation that is not on integers alone converts both operands. -/
theorem Operator.apply_floats (o : Operator) {a b : Number}
    (h : ∀ i j, a = .int i → b ≠ .int j) :
    o.apply a b = (do
      let x ← a.toFloat
      let y ← b.toFloat
      o.onFloats x y) := by
  have hdiv (x y : Binary64) : Operator.divide.onFloats x y = (do
      if y.isZero then throw .floatDivisionByZero
      return Number.float (x / y)) := by
    show (if y.isZero then _ else _) = _
    cases y.isZero <;> rfl
  cases a <;> cases b
  case int.int i j => exact absurd rfl (h i j rfl)
  all_goals
    cases o with
    | divide => simp only [hdiv]; rfl
    | plus | minus | times => rfl

theorem Operator.apply_eq (o : Operator) (a b : Number) :
    o.apply a b = arithmetic.binary o a b := by
  cases a with
  | int i =>
      cases b with
      | int j => cases o <;> rfl
      | float y =>
          rw [apply_floats o fun _ _ _ => Number.noConfusion, Number.toFloat_int,
            Number.toFloat_float]
          simp only [pure_bind]
          rfl
  | float x =>
      rw [apply_floats o fun _ _ => Number.noConfusion, Number.toFloat_float, pure_bind]
      cases b with
      | int j => rw [Number.toFloat_int]; rfl
      | float y => rw [Number.toFloat_float, pure_bind]; rfl

end Peg.Calculator
