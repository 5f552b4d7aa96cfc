import Peg.Binary64.Arithmetic
import Peg.Text.Numeral
import Peg.Value

/-!
# The values of JSON numbers

A number without fraction and exponent denotes an integer, exactly. Any other
number denotes a float, which is put together from its parts in floating point: the
fraction digit by digit from its end, then the integer part and the fraction added,
then their sum multiplied by a power of ten. Each of these steps rounds, so the
value need not be the float nearest to the decimal that was written.

A part that is too large for a float counts as infinite, and so does the power of
ten when its exponent is too large for one.
-/

namespace Peg.Json

/-- The parts of a number, as digits. -/
structure NumberParts where
  negative : Bool
  whole : List Nat
  fraction : Option (List Nat)
  /-- Whether the exponent is negative, and its digits. -/
  exponent : Option (Bool × List Nat)
  deriving DecidableEq, Repr

namespace NumberParts

/-- The digits after the point as a float, from the last digit to the first. -/
def fractionValue (ds : List Nat) : Binary64 :=
  ds.foldr (fun d x => (x + Binary64.ofNat d) / Binary64.ofNat 10) (.zero false)

/-- The power of ten to multiply by. -/
def factor (negative : Bool) (ds : List Nat) : Binary64 :=
  let n : Int := if negative then -Numeral.ofDigits ds else Numeral.ofDigits ds
  if (Binary64.ofInt? n).isSome then Binary64.tenPower n else .infinite false

/-- The float that a number with a fraction or an exponent denotes. -/
def floatValue (p : NumberParts) : Binary64 :=
  let fraction := (p.fraction.map fractionValue).getD (.zero false)
  let factor := (p.exponent.map fun (negative, ds) => factor negative ds).getD (.ofNat 1)
  let mantissa := Binary64.ofNat (Numeral.ofDigits p.whole) + fraction
  if mantissa.isZero then .zero p.negative
  else (if p.negative then -mantissa else mantissa) * factor

/-- The integer that a number without fraction and exponent denotes. -/
def intValue (p : NumberParts) : Int :=
  if p.negative then -Numeral.ofDigits p.whole else Numeral.ofDigits p.whole

variable {α : Type}

/-- The value of a number. -/
def toValue (p : NumberParts) : Value α :=
  if p.fraction.isNone && p.exponent.isNone then .int p.intValue else .float p.floatValue

/-! ## Parts from raw results -/

/-- The digits in a list of results of digit nodes. -/
def digits? : List (Value α) → Option (List Nat)
  | [] => some []
  | .int (.ofNat d) :: vs => (digits? vs).map (d :: ·)
  | _ => none

/-- The digits of at least one digit node. -/
def someDigits? : Value α → Option (List Nat)
  | .tuple [first, .list rest] => digits? (first :: rest)
  | _ => none

/-- Whether a sign is a minus sign. -/
def isMinus : Value α → Bool
  | .text t => t == Text.ofString "-"
  | _ => false

/-- The parts of a number from the result of the number node without its action. -/
def ofRaw? : Value α → Option NumberParts
  | .tuple [sign, whole, fraction, exponent] => do
    let whole ←
      match whole with
      | .text _ => some [0]
      | v => someDigits? v
    let fraction ←
      match fraction with
      | .null => some none
      | .tuple [_, ds] => (someDigits? ds).map some
      | _ => none
    let exponent ←
      match exponent with
      | .null => some none
      | .tuple [_, minus, ds] => (someDigits? ds).map fun ds => some (isMinus minus, ds)
      | _ => none
    return ⟨isMinus sign, whole, fraction, exponent⟩
  | _ => none

end NumberParts

end Peg.Json
