import Peg.Binary64.Rounding
import Peg.Text.Basic

/-!
# The decimal text of a binary64 number

A number is written with the fewest significant digits that read back as itself;
of several such decimals the nearest to the number is taken, and of two equally
near ones the one with the even last digit. On the grid of decimals with a given
number of digits only the two neighbours of the number can do, so for each count
of digits two candidates are tried, in exact arithmetic.

The digits are then laid out: positionally when the point falls close to them,
with an exponent otherwise.
-/

namespace Peg

namespace Binary64

/-- The decimal number `digits` times 10 ^ `exponent`. -/
structure Decimal where
  digits : Nat
  exponent : Int
  deriving DecidableEq, Repr

/-- A number of units divided by 10 ^ `exponent`, as a quotient. -/
def scaled (units : Nat) (exponent : Int) : Nat × Nat :=
  if 0 ≤ exponent then (units, unitsInOne * Nat.pow 10 exponent.toNat)
  else (units * Nat.pow 10 exponent.natAbs, unitsInOne)

namespace Decimal

/-- The magnitude that a decimal is read as. -/
def toMagnitude? (d : Decimal) : Option Magnitude :=
  if 0 ≤ d.exponent then
    Magnitude.nearest? (d.digits * Nat.pow 10 d.exponent.toNat * unitsInOne) 1
  else Magnitude.nearest? (d.digits * unitsInOne) (Nat.pow 10 d.exponent.natAbs)

end Decimal

namespace Magnitude

/-- Whether a magnitude is less than 10 ^ `p`. -/
def isBelowPower (m : Magnitude) (p : Int) : Bool :=
  let (num, den) := scaled m.units p
  num < den

/-- The `p` with 10 ^ (`p` - 1) ≤ `m` < 10 ^ `p`, for a magnitude that is not zero:
where the decimal point stands, counted from the first significant digit. -/
def decimalPoint (m : Magnitude) : Int :=
  (((List.range 633).map fun k : Nat => (k : Int) - 323).find? m.isBelowPower).getD 309

/-- The decimals of `count` digits on either side of a magnitude, the nearer one
first, and the even one first when both are equally near. -/
def neighbours (m : Magnitude) (count : Nat) : List Decimal :=
  let exponent := m.decimalPoint - count
  let (num, den) := scaled m.units exponent
  let lower : Decimal := ⟨num / den, exponent⟩
  let upper : Decimal := ⟨num / den + 1, exponent⟩
  if nearestQuotient num den = num / den then [lower, upper] else [upper, lower]

/-- The decimal of `count` digits that a magnitude can be written as, if any. -/
def decimal? (m : Magnitude) (count : Nat) : Option Decimal :=
  (m.neighbours count).find? (·.toMagnitude? = some m)

/-- No magnitude needs more digits than these. -/
def maxDigits : Nat := 17

/-- The decimal that a magnitude other than zero is written as. -/
def shortest (m : Magnitude) : Decimal :=
  ((List.range maxDigits).findSome? fun k => m.decimal? (k + 1)).getD
    ⟨0, 0⟩

end Magnitude

/-- The last position of the point at which the notation is positional; further
right there is an exponent. -/
def lastPositionalPoint : Int := 16

/-- The first position of the point at which the notation is positional. -/
def firstPositionalPoint : Int := -3

/-- An exponent with its sign and at least two digits. -/
def exponentText (e : Int) : Text :=
  let digits := Text.ofNat e.natAbs
  (if e < 0 then "e-" else "e+") ++ (if digits.length < 2 then "0" ++ digits else digits)

/-- Lays out the digits of a decimal whose point stands `point` places after the
first of them. -/
def layout (digits : Text) (point : Int) : Text :=
  let zeros (n : Nat) : Text := List.replicate n (CodePoint.ofChar '0')
  if firstPositionalPoint ≤ point ∧ point ≤ lastPositionalPoint then
    if point ≤ 0 then "0." ++ zeros point.natAbs ++ digits
    else if digits.length ≤ point.toNat then
      digits ++ zeros (point.toNat - digits.length) ++ ".0"
    else digits.take point.toNat ++ "." ++ digits.drop point.toNat
  else
    let fraction : Text := if digits.length ≤ 1 then [] else "." ++ digits.drop 1
    digits.take 1 ++ fraction ++ exponentText (point - 1)

/-- A magnitude in decimal. -/
def Magnitude.text (m : Magnitude) : Text :=
  if m.isZero then "0.0"
  else
    let d := m.shortest
    let digits := Text.ofNat d.digits
    let significant := (digits.reverse.dropWhile (· = CodePoint.ofChar '0')).reverse
    layout significant (d.exponent + digits.length)

/-- A binary64 number in decimal. -/
def text : Binary64 → Text
  | .nan => "nan"
  | .infinite negative => if negative then "-inf" else "inf"
  | .finite negative m => if negative then "-" ++ m.text else m.text

end Binary64

end Peg
