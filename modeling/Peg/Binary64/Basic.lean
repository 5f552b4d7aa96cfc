/-!
# Binary64 numbers

A finite binary64 number is a sign and a magnitude, and every magnitude is a whole
number of *units* of 2 ^ -1074. Counting in units turns questions about floating
point into questions about natural numbers: a magnitude is `significand` times
2 ^ `exponent` units, and no rational or real number has to be mentioned.

The canonical form makes the pair unique: the significand has 53 bits, or fewer
when the exponent is already zero. The bits of a magnitude are then simply
`exponent` times 2 ^ 52 plus `significand`, for subnormal and normal numbers alike.
-/

namespace Peg

namespace Binary64

/-- The greatest exponent of a finite magnitude. -/
def maxExponent : Nat := 2045

/-- The form in which a magnitude has one significand and one exponent. -/
def Canonical (significand exponent : Nat) : Prop :=
  significand < 1 <<< 53 ∧ exponent ≤ maxExponent ∧ (exponent = 0 ∨ 1 <<< 52 ≤ significand)

instance (significand exponent : Nat) : Decidable (Canonical significand exponent) :=
  inferInstanceAs (Decidable (_ ∧ _ ∧ _))

/-- A finite number without its sign: `significand` times 2 ^ `exponent` units. -/
structure Magnitude where
  significand : Nat
  exponent : Nat
  canonical : Canonical significand exponent
  deriving DecidableEq

namespace Magnitude

/-- How many units of 2 ^ -1074 a magnitude is. -/
def units (m : Magnitude) : Nat := m.significand <<< m.exponent

def zero : Magnitude := ⟨0, 0, by decide⟩

def isZero (m : Magnitude) : Bool := m.significand == 0

theorem isZero_iff {m : Magnitude} : m.isZero = true ↔ m.units = 0 := by
  rw [isZero, beq_iff_eq, units, Nat.shiftLeft_eq, Nat.mul_eq_zero]
  exact ⟨.inl, fun h => h.resolve_right (Nat.ne_of_gt (Nat.two_pow_pos _))⟩

end Magnitude

end Binary64

/-- A binary64 number. All NaNs count as one. -/
inductive Binary64 where
  | nan
  | infinite (negative : Bool)
  | finite (negative : Bool) (magnitude : Binary64.Magnitude)
  deriving DecidableEq

namespace Binary64

/-- The number of units in one. -/
def unitsInOne : Nat := 1 <<< 1074

def zero (negative : Bool) : Binary64 := .finite negative .zero

def isZero : Binary64 → Bool
  | .finite _ m => m.isZero
  | _ => false

def isNaN : Binary64 → Bool
  | .nan => true
  | _ => false

/-- The bits of a number in the interchange format. -/
def toBits : Binary64 → Nat
  | .nan => 0x7FF8000000000000
  | .infinite negative => (if negative then 1 <<< 63 else 0) + (0x7FF <<< 52)
  | .finite negative m =>
    (if negative then 1 <<< 63 else 0) + (m.exponent <<< 52) + m.significand

/-- The number that 64 bits of the interchange format stand for. -/
def ofBits (bits : Nat) : Binary64 :=
  let negative := (bits >>> 63) % 2 == 1
  let field := (bits >>> 52) % 0x800
  let fraction := bits % (1 <<< 52)
  have : fraction < 1 <<< 52 := Nat.mod_lt _ (by decide)
  if field = 0 then
    .finite negative ⟨fraction, 0, by unfold Canonical maxExponent; omega⟩
  else if h : field < 0x7FF then
    .finite negative ⟨(1 <<< 52) + fraction, field - 1, by
      unfold Canonical maxExponent; omega⟩
  else if fraction = 0 then .infinite negative
  else .nan

end Binary64

end Peg
