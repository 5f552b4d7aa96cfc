import Peg.Binary64.Rounding

/-!
# Binary64 arithmetic

Each operation takes the exact result and rounds it once. The signs of zeros, the
infinities and NaN follow IEEE 754.
-/

namespace Peg

namespace Binary64

/-- The number nearest to `i / den` units. An exact zero gets the given sign. -/
private def ofSignedUnits (zeroNegative : Bool) (i : Int) (den : Nat) : Binary64 :=
  if i = 0 then .zero zeroNegative else ofUnits (i < 0) i.natAbs den

def neg : Binary64 → Binary64
  | .nan => .nan
  | .infinite s => .infinite !s
  | .finite s m => .finite (!s) m

def add : Binary64 → Binary64 → Binary64
  | .nan, _ | _, .nan => .nan
  | .infinite s, .infinite t => if s = t then .infinite s else .nan
  | .infinite s, .finite .. => .infinite s
  | .finite .., .infinite t => .infinite t
  | .finite s a, .finite t b =>
    let signed (negative : Bool) (m : Magnitude) : Int := if negative then -m.units else m.units
    ofSignedUnits (s && t) (signed s a + signed t b) 1

def sub (x y : Binary64) : Binary64 := add x (neg y)

def mul : Binary64 → Binary64 → Binary64
  | .nan, _ | _, .nan => .nan
  | .infinite s, .infinite t => .infinite (s != t)
  | .infinite s, .finite t b => if b.isZero then .nan else .infinite (s != t)
  | .finite s a, .infinite t => if a.isZero then .nan else .infinite (s != t)
  | .finite s a, .finite t b => ofUnits (s != t) (a.units * b.units) unitsInOne

/-- Division. A divisor of zero gives an infinity, or NaN under another zero. -/
def div : Binary64 → Binary64 → Binary64
  | .nan, _ | _, .nan => .nan
  | .infinite _, .infinite _ => .nan
  | .infinite s, .finite t _ => .infinite (s != t)
  | .finite s _, .infinite t => .zero (s != t)
  | .finite s a, .finite t b =>
    if b.isZero then if a.isZero then .nan else .infinite (s != t)
    else ofUnits (s != t) (a.units * unitsInOne) b.units

instance : Neg Binary64 := ⟨neg⟩
instance : Add Binary64 := ⟨add⟩
instance : Sub Binary64 := ⟨sub⟩
instance : Mul Binary64 := ⟨mul⟩
instance : Div Binary64 := ⟨div⟩

/-- The integer part of a finite number, toward zero. -/
def truncate? : Binary64 → Option Int
  | .finite negative m =>
    let whole : Int := m.units / unitsInOne
    some (if negative then -whole else whole)
  | _ => none

/-- The exponents whose power of ten is taken to be the upper of its two
neighbours: at the first the two are equally near and the lower one is even, at
the second the lower one is nearer, but by less than a five-hundredth of their
distance. -/
def raisedPowers : List Int := [23, 210]

/-- The next larger magnitude, if there is one. -/
def Magnitude.next? (m : Magnitude) : Option Magnitude :=
  if m.significand + 1 = 1 <<< 53 then ofParts? (1 <<< 52) (m.exponent + 1)
  else ofParts? (m.significand + 1) m.exponent

/-- A power of ten as binary64 knows it. None is as large as ten to the 309, and
below ten to the -400 there is only zero. -/
def tenPower (n : Int) : Binary64 :=
  if 308 < n then .infinite false
  else if n < -400 then .zero false
  else
    let power :=
      if 0 ≤ n then ofRatio false (Nat.pow 10 n.toNat) 1
      else ofRatio false 1 (Nat.pow 10 n.natAbs)
    if n ∈ raisedPowers then
      match power with
      | .finite s m => match m.next? with
        | some m' => .finite s m'
        | none => .infinite s
      | other => other
    else power

end Binary64

end Peg
