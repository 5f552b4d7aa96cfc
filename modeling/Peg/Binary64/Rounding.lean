import Peg.Binary64.Basic

/-!
# Rounding to binary64

An exact result is a quotient of natural numbers, counted in units. It is rounded
to the nearest magnitude, and to the one with the even significand when two are
equally near. A quotient too large for any magnitude has none; what to make of
that is for the operation at hand to say.
-/

namespace Peg

/-- The whole number nearest to `num / den`, the even one when two are. -/
def nearestQuotient (num den : Nat) : Nat :=
  let q := num / den
  let twice := 2 * (num % den)
  if twice < den then q
  else if den < twice then q + 1
  else if q % 2 = 0 then q else q + 1

namespace Binary64

namespace Magnitude

/-- The magnitude with the given parts, if they are in canonical form. -/
def ofParts? (significand exponent : Nat) : Option Magnitude :=
  if h : Canonical significand exponent then some ⟨significand, exponent, h⟩ else none

/-- The exponent at which `n` units have a significand of 53 bits, or zero when
they have fewer bits than that. -/
def exponentOf (n : Nat) : Nat := Nat.log2 n - 52

/-- The magnitude nearest to `num / den` units, if any is that large. -/
def nearest? (num den : Nat) : Option Magnitude :=
  let exponent := exponentOf (num / den)
  let significand := nearestQuotient num (den <<< exponent)
  if significand = 1 <<< 53 then ofParts? (1 <<< 52) (exponent + 1)
  else ofParts? significand exponent

end Magnitude

/-- The number nearest to `num / den` units, of the given sign; an infinity when
the quotient is too large. -/
def ofUnits (negative : Bool) (num den : Nat) : Binary64 :=
  match Magnitude.nearest? num den with
  | some m => .finite negative m
  | none => .infinite negative

/-- The number nearest to `num / den`, of the given sign. -/
def ofRatio (negative : Bool) (num den : Nat) : Binary64 :=
  ofUnits negative (num * unitsInOne) den

/-- The number nearest to an integer, if any is that large. -/
def ofInt? (i : Int) : Option Binary64 :=
  (Magnitude.nearest? (i.natAbs * unitsInOne) 1).map (.finite (i < 0))

/-- The number nearest to a natural number, or an infinity. -/
def ofNat (n : Nat) : Binary64 := ofRatio false n 1

/-- The quotient of two integers, rounded once, if any number is that large. The
divisor is not zero. -/
def ofQuotient? (i j : Int) : Option Binary64 :=
  (Magnitude.nearest? (i.natAbs * unitsInOne) j.natAbs).map
    (.finite ((i < 0) != (j < 0)))

end Binary64

end Peg
