import Peg.Binary64.Arithmetic
import Peg.Fault
import Peg.Text.Numeral

/-!
# Numbers of the calculator

The calculator computes with integers of any size and with floats. Operations on
integers are exact, except that a quotient is always a float, rounded once. When
one operand is a float the other is converted to one first.
-/

namespace Peg.Calculator

/-- An integer or a float. -/
inductive Number where
  | int (i : Int)
  | float (x : Binary64)
  deriving DecidableEq

/-- Why an operation has no result. -/
inductive ArithmeticError where
  /-- An integer is divided by the integer zero. -/
  | divisionByZero
  /-- A number is divided by zero, one of the two being a float. -/
  | floatDivisionByZero
  /-- An integer is too large to be converted to a float. -/
  | integerTooLarge
  /-- The quotient of two integers is too large for a float. -/
  | quotientTooLarge
  /-- The factorial of a float is asked for. -/
  | factorialOfFloat
  /-- A numeral has more digits than are read. -/
  | tooManyDigits (digits : Nat)
  deriving DecidableEq, Repr

namespace ArithmeticError

def kind : ArithmeticError → Kind
  | divisionByZero | floatDivisionByZero => .zeroDivision
  | integerTooLarge | quotientTooLarge => .overflow
  | factorialOfFloat => .type
  | tooManyDigits _ => .value

def message : ArithmeticError → Text
  | divisionByZero => "division by zero"
  | floatDivisionByZero => "float division by zero"
  | integerTooLarge => "int too large to convert to float"
  | quotientTooLarge => "integer division result too large for a float"
  | factorialOfFloat => "'float' object cannot be interpreted as an integer"
  | tooManyDigits digits => Numeral.tooLongMessage digits

def raised (e : ArithmeticError) : Raised := .shown e.kind e.message

end ArithmeticError

namespace Number

/-- A number as a float. -/
def toFloat : Number → Except ArithmeticError Binary64
  | int i => (Binary64.ofInt? i).elim (.error .integerTooLarge) .ok
  | float x => .ok x

/-- An operation given by what it does with integers and with floats. -/
def lift (ints : Int → Int → Int) (floats : Binary64 → Binary64 → Binary64) (a b : Number) :
    Except ArithmeticError Number :=
  match a, b with
  | int i, int j => .ok (int (ints i j))
  | a, b => do
    let x ← a.toFloat
    let y ← b.toFloat
    return float (floats x y)

def add : Number → Number → Except ArithmeticError Number := lift (· + ·) (· + ·)

def sub : Number → Number → Except ArithmeticError Number := lift (· - ·) (· - ·)

def mul : Number → Number → Except ArithmeticError Number := lift (· * ·) (· * ·)

def div (a b : Number) : Except ArithmeticError Number :=
  match a, b with
  | int i, int j =>
    if j = 0 then .error .divisionByZero
    else (Binary64.ofQuotient? i j).elim (.error .quotientTooLarge) fun x => .ok (float x)
  | a, b => do
    let x ← a.toFloat
    let y ← b.toFloat
    if y.isZero then throw .floatDivisionByZero
    return float (x / y)

def neg : Number → Number
  | int i => int (-i)
  | float x => float (-x)

/-- The product of the numbers from one to `n`. -/
def product (n : Nat) : Nat := (List.range n).foldl (fun p k => p * (k + 1)) 1

/-- The factorial; that of a negative integer is one. -/
def factorial : Number → Except ArithmeticError Number
  | int i => .ok (int (product i.toNat))
  | float _ => .error .factorialOfFloat

/-- The number that decimal digits write. -/
def ofDigits (ds : List Nat) : Except ArithmeticError Number :=
  if Numeral.maxDigits < ds.length then .error (.tooManyDigits ds.length)
  else .ok (int (Numeral.ofDigits ds))

end Number

/-- The binary operators. -/
inductive Operator where
  | plus
  | minus
  | times
  | divide
  deriving DecidableEq, Repr

namespace Operator

def ofText? (t : Text) : Option Operator :=
  if t = Text.ofString "+" then some plus
  else if t = Text.ofString "-" then some minus
  else if t = Text.ofString "*" then some times
  else if t = Text.ofString "/" then some divide
  else none

def apply : Operator → Number → Number → Except ArithmeticError Number
  | plus => Number.add
  | minus => Number.sub
  | times => Number.mul
  | divide => Number.div

end Operator

end Peg.Calculator
