import Peg.Text.Basic

/-!
# Reading an integer

A numeral is an optional sign and a run of decimal digits, of any script that
Unicode 14 knows, in which one underscore may stand between two digits. Blanks
may surround it. A numeral of more than `maxDigits` digits is refused before
anything else about its end is looked at, so that no reader has to convert it.
-/

namespace Peg

namespace CodePoint

/-- The code points that write zero in some script; the nine after each of them
write one to nine. -/
def decimalZeros : List Nat :=
  [0x30, 0x660, 0x6F0, 0x7C0, 0x966, 0x9E6, 0xA66, 0xAE6, 0xB66, 0xBE6, 0xC66, 0xCE6, 0xD66,
    0xDE6, 0xE50, 0xED0, 0xF20, 0x1040, 0x1090, 0x17E0, 0x1810, 0x1946, 0x19D0, 0x1A80, 0x1A90,
    0x1B50, 0x1BB0, 0x1C40, 0x1C50, 0xA620, 0xA8D0, 0xA900, 0xA9D0, 0xA9F0, 0xAA50, 0xABF0,
    0xFF10, 0x104A0, 0x10D30, 0x11066, 0x110F0, 0x11136, 0x111D0, 0x112F0, 0x11450, 0x114D0,
    0x11650, 0x116C0, 0x11730, 0x118E0, 0x11950, 0x11C50, 0x11D50, 0x11DA0, 0x16A60, 0x16AC0,
    0x16B50, 0x1D7CE, 0x1D7D8, 0x1D7E2, 0x1D7EC, 0x1D7F6, 0x1E140, 0x1E2F0, 0x1E950, 0x1FBF0]

/-- The value of a decimal digit of any script. -/
def decimal? (c : CodePoint) : Option Nat :=
  if c.val < 0x80 then if c.isDigit then some c.digitValue else none
  else (decimalZeros.find? fun z => z ≤ c.val && c.val < z + 10).map (c.val - ·)

/-- The blanks that may surround a numeral: the space, the controls from the tab
to the carriage return, and the blanks of Unicode beyond ASCII. -/
def isNumeralBlank (c : CodePoint) : Bool :=
  c.val == 0x20 || (0x09 ≤ c.val && c.val ≤ 0x0D) || c.val == 0x85 || c.val == 0xA0 ||
    c.val == 0x1680 || (0x2000 ≤ c.val && c.val ≤ 0x200A) || c.val == 0x2028 ||
    c.val == 0x2029 || c.val == 0x202F || c.val == 0x205F || c.val == 0x3000

def underscore : CodePoint := ofChar '_'

end CodePoint

/-- What reading a numeral gives. -/
inductive Numeral where
  | value (i : Int)
  /-- The numeral has `digits` digits, more than are read. -/
  | tooLong (digits : Nat)
  | malformed
  deriving DecidableEq, Repr

namespace Numeral

/-- The greatest number of digits that is converted between text and number. -/
def maxDigits : Nat := 4300

/-- The message about a numeral with too many digits. -/
def tooLongMessage (digits : Nat) : Text :=
  "Exceeds the limit (" ++ Text.ofNat maxDigits ++
    " digits) for integer string conversion: value has " ++ Text.ofNat digits ++
    " digits; use sys.set_int_max_str_digits() to increase the limit"

/-- Digits and underscores make up the body of a numeral. -/
def isMark (c : CodePoint) : Bool := c.decimal?.isSome || c = CodePoint.underscore

/-- Whether each underscore of a body stands between two digits: none is first or
last, and no two are neighbours. -/
def wellSpaced (body : Text) : Bool :=
  body.head? ≠ some CodePoint.underscore && body.getLast? ≠ some CodePoint.underscore &&
    (body.zip body.tail).all fun (c, d) => c ≠ CodePoint.underscore || d ≠ CodePoint.underscore

/-- The number whose decimal digits are `ds`, most significant first. -/
def ofDigits (ds : List Nat) : Nat := ds.foldl (fun n d => n * 10 + d) 0

/-- Reads what follows the sign. -/
def readUnsigned (sign : Int) (t : Text) : Numeral :=
  let body := t.takeWhile isMark
  let digits := body.filterMap CodePoint.decimal?
  if !wellSpaced body then .malformed
  else if maxDigits < digits.length then .tooLong digits.length
  else if digits.isEmpty || !(t.dropWhile isMark).all CodePoint.isNumeralBlank then .malformed
  else .value (sign * ofDigits digits)

/-- Reads a text as an integer. -/
def read (t : Text) : Numeral :=
  match t.dropWhile CodePoint.isNumeralBlank with
  | [] => .malformed
  | c :: cs =>
    if c = CodePoint.ofChar '-' then readUnsigned (-1) cs
    else if c = CodePoint.ofChar '+' then readUnsigned 1 cs
    else readUnsigned 1 (c :: cs)

end Numeral

end Peg
