import Peg.Json.Number
import Peg.Proofs.Runs
import Peg.Value

/-!
# JSON texts

The grammar of RFC 8259 over code points, together with what its texts denote. It is
written down without regard to how a text is read: blanks belong to the structural
characters, as they do in the document, and nothing says in which order alternatives
are looked at.

A string may have any code point in it from the space on, besides the quotation mark
and the backslash; a surrogate is one like any other, and an escape of four hexadecimal
digits stands for the one code point with that number. A number without fraction and
exponent denotes an integer, and any other number the float that is computed from its
digits. The names of an object are listed once each, in the order in which they first
come, with the values that they have last.

Values carry a bound on how deep arrays and objects are nested in them.
-/

namespace Peg.Json

/-! ## Blanks -/

/-- Space, horizontal tab, line feed and carriage return. -/
def IsBlank (c : CodePoint) : Prop :=
  c ∈ [CodePoint.ofChar ' ', CodePoint.ofChar '\t', CodePoint.ofChar '\n', CodePoint.ofChar '\r']

abbrev AreBlanks (t : Text) : Prop := IsRun IsBlank t

/-- A structural character, which may have blanks around it. -/
def IsStructural (c : Char) (t : Text) : Prop :=
  ∃ w₁ w₂, AreBlanks w₁ ∧ AreBlanks w₂ ∧ t = w₁ ++ CodePoint.ofChar c :: w₂

/-! ## Numbers -/

def digitValues (t : Text) : List Nat := t.map CodePoint.digitValue

inductive IsWhole : Text → List Nat → Prop
  | zero : IsWhole "0" [0]
  | positive {c : CodePoint} {t : Text} : 0x31 ≤ c.val → c.val ≤ 0x39 → AreDigits t →
    IsWhole (c :: t) (digitValues (c :: t))

inductive IsFraction : Text → Option (List Nat) → Prop
  | absent : IsFraction [] none
  | digits {t : Text} : AreDigits t → t ≠ [] → IsFraction ("." ++ t) (some (digitValues t))

/-- The signs of an exponent, and whether they make it negative. -/
inductive IsExponentSign : Text → Bool → Prop
  | absent : IsExponentSign [] false
  | plus : IsExponentSign "+" false
  | minus : IsExponentSign "-" true

inductive IsExponent : Text → Option (Bool × List Nat) → Prop
  | absent : IsExponent [] none
  | digits {e : Char} {sign t : Text} {negative : Bool} : e = 'e' ∨ e = 'E' →
    IsExponentSign sign negative → AreDigits t → t ≠ [] →
    IsExponent (CodePoint.ofChar e :: (sign ++ t)) (some (negative, digitValues t))

inductive IsNumber : Text → NumberParts → Prop
  | positive {w f e : Text} {whole fraction exponent} : IsWhole w whole →
    IsFraction f fraction → IsExponent e exponent →
    IsNumber (w ++ (f ++ e)) ⟨false, whole, fraction, exponent⟩
  | negative {w f e : Text} {whole fraction exponent} : IsWhole w whole →
    IsFraction f fraction → IsExponent e exponent →
    IsNumber ("-" ++ (w ++ (f ++ e))) ⟨true, whole, fraction, exponent⟩

/-! ## Strings -/

def quotationMark : CodePoint := CodePoint.ofChar '"'

def backslash : CodePoint := CodePoint.ofChar '\\'

/-- What follows the backslash in an escape of one code point, and what it stands for. -/
def escapeMeanings : List (Char × Char) :=
  [('"', '"'), ('\\', '\\'), ('/', '/'), ('b', '\x08'), ('f', '\x0c'), ('n', '\n'), ('r', '\r'),
    ('t', '\t')]

/-- A hexadecimal digit of either case, and its value. -/
inductive IsHexDigit : CodePoint → Nat → Prop
  | digit {c : CodePoint} : 0x30 ≤ c.val → c.val ≤ 0x39 → IsHexDigit c (c.val - 0x30)
  | lower {c : CodePoint} : 0x61 ≤ c.val → c.val ≤ 0x66 → IsHexDigit c (c.val - 0x61 + 10)
  | upper {c : CodePoint} : 0x41 ≤ c.val → c.val ≤ 0x46 → IsHexDigit c (c.val - 0x41 + 10)

/-- One code point of a string, as it is written and as it is meant. -/
inductive IsChar : Text → CodePoint → Prop
  | plain {c : CodePoint} : 0x20 ≤ c.val → c ≠ quotationMark → c ≠ backslash → IsChar [c] c
  | escape {e c : Char} : (e, c) ∈ escapeMeanings →
    IsChar [backslash, CodePoint.ofChar e] (CodePoint.ofChar c)
  | unicode {a b c d u : CodePoint} {i j k l : Nat} : IsHexDigit a i → IsHexDigit b j →
    IsHexDigit c k → IsHexDigit d l → u.val = ((i * 16 + j) * 16 + k) * 16 + l →
    IsChar [backslash, CodePoint.ofChar 'u', a, b, c, d] u

inductive AreChars : Text → Text → Prop
  | nil : AreChars [] []
  | cons {t u : Text} {c : CodePoint} {s : Text} : IsChar t c → AreChars u s →
    AreChars (t ++ u) (c :: s)

inductive IsString : Text → Text → Prop
  | intro {t s : Text} : AreChars t s → IsString (quotationMark :: (t ++ [quotationMark])) s

/-! ## Values -/

variable {α : Type}

/-- The entries of an object with these members: every name once, where it comes first,
with the value that it has last. -/
def memberEntries (members : List (Text × Value α)) : List (Text × Value α) :=
  (members.map (·.1)).eraseDups.filterMap fun name =>
    (members.reverse.lookup name).map fun v => (name, v)

/-- The dictionary of an object. -/
def dictOf (members : List (Text × Value α)) : Value α :=
  .dict ((memberEntries members).map fun (name, v) => (.text name, v))

mutual

/-- The text is a value in which arrays and objects nest at most so deep. -/
inductive IsValue : (nesting : Nat) → Text → Value α → Prop
  | true {n} : IsValue n "true" (.bool true)
  | false {n} : IsValue n "false" (.bool false)
  | null {n} : IsValue n "null" .null
  | integer {n t p} : IsNumber t p → p.fraction = none → p.exponent = none →
    IsValue n t (.int (if p.negative then -(Nat.ofDigits 10 p.whole.reverse : Nat)
      else (Nat.ofDigits 10 p.whole.reverse : Nat)))
  | real {n t p} : IsNumber t p → p.fraction ≠ none ∨ p.exponent ≠ none →
    IsValue n t (.float p.floatValue)
  | string {n t s} : IsString t s → IsValue n t (.text s)
  | emptyArray {n a b} : IsStructural '[' a → IsStructural ']' b →
    IsValue (n + 1) (a ++ b) (.list [])
  | array {n a t b vs} : IsStructural '[' a → IsElements n t vs → IsStructural ']' b →
    IsValue (n + 1) (a ++ (t ++ b)) (.list vs)
  | emptyObject {n a b} : IsStructural '\x7b' a → IsStructural '\x7d' b →
    IsValue (n + 1) (a ++ b) (dictOf [])
  | object {n a t b ms} : IsStructural '\x7b' a → IsMembers n t ms → IsStructural '\x7d' b →
    IsValue (n + 1) (a ++ (t ++ b)) (dictOf ms)

/-- Values with separators between them. -/
inductive IsElements : (nesting : Nat) → Text → List (Value α) → Prop
  | one {n t v} : IsValue n t v → IsElements n t [v]
  | more {n t c u v vs} : IsValue n t v → IsStructural ',' c → IsElements n u vs →
    IsElements n (t ++ (c ++ u)) (v :: vs)

/-- Names and values with separators between them. -/
inductive IsMembers : (nesting : Nat) → Text → List (Text × Value α) → Prop
  | one {n k name c t v} : IsString k name → IsStructural ':' c → IsValue n t v →
    IsMembers n (k ++ (c ++ t)) [(name, v)]
  | more {n k name c t v d u ms} : IsString k name → IsStructural ':' c → IsValue n t v →
    IsStructural ',' d → IsMembers n u ms →
    IsMembers n (k ++ (c ++ (t ++ (d ++ u)))) ((name, v) :: ms)

end

/-- The text is a JSON text that denotes the value, and nests at most so deep. -/
def IsJson (nesting : Nat) (t : Text) (v : Value α) : Prop :=
  ∃ w₁ u w₂, AreBlanks w₁ ∧ IsValue nesting u v ∧ AreBlanks w₂ ∧ t = w₁ ++ (u ++ w₂)

end Peg.Json
