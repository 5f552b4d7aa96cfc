/-!
# Code points and texts

A text is a list of Unicode code points. The surrogates are code points like any
other, so a text may hold one alone and two never join; this is why `String`,
whose characters are scalar values, is not enough.

Offsets into a text are integers. A negative offset counts from the end, and an
offset that falls outside the text is moved to the nearer end. `anchor` states
that rule once, and everything that cuts a text goes through it.
-/

namespace Peg

/-- A Unicode code point, surrogates included. -/
abbrev CodePoint := Fin 0x110000

namespace CodePoint

/-- The code point of a character. -/
def ofChar (c : Char) : CodePoint :=
  ⟨c.val.toNat, by
    have h := c.valid
    simp only [UInt32.isValidChar, Nat.isValidChar] at h
    omega⟩

/-- The code point of a number, if it is one. -/
def ofInt? (i : Int) : Option CodePoint :=
  if h : 0 ≤ i ∧ i < 0x110000 then some ⟨i.toNat, by omega⟩ else none

def newline : CodePoint := ofChar '\n'

def space : CodePoint := ofChar ' '

/-- The surrogates are the code points that stand for no character. -/
def isSurrogate (c : CodePoint) : Bool := 0xD800 ≤ c.val && c.val ≤ 0xDFFF

/-- The ASCII digits. -/
def isDigit (c : CodePoint) : Bool := 0x30 ≤ c.val && c.val ≤ 0x39

theorem isDigit_iff {c : CodePoint} : c.isDigit = true ↔ 0x30 ≤ c.val ∧ c.val ≤ 0x39 := by
  simp [isDigit]

/-- The value of an ASCII digit. -/
def digitValue (c : CodePoint) : Nat := c.val - 0x30

end CodePoint

/-- A list of code points. -/
abbrev Text := List CodePoint

namespace Text

/-- The code points of a string. -/
def ofString (s : String) : Text := s.toList.map CodePoint.ofChar

instance : Coe String Text := ⟨ofString⟩

/-- Where the offset `i` falls in a text of `size` code points. -/
def anchor (size : Nat) (i : Int) : Nat :=
  if i < 0 then (i + size).toNat else min i.toNat size

theorem anchor_le (size : Nat) (i : Int) : anchor size i ≤ size := by
  unfold anchor
  split <;> omega

theorem anchor_of_mem {size : Nat} {i : Int} (h₀ : 0 ≤ i) (h₁ : i ≤ size) :
    (anchor size i : Int) = i := by
  unfold anchor
  split <;> omega

/-- The code points from the offset `i` up to the offset `j`. -/
def slice (t : Text) (i j : Int) : Text :=
  (t.take (anchor t.length j)).drop (anchor t.length i)

/-- The code point at the offset `i`, if there is one. A negative offset counts
from the end here too, but nothing is moved into the text. -/
def at? (t : Text) (i : Int) : Option CodePoint :=
  if i < 0 then
    if i + t.length < 0 then none else t[(i + t.length).toNat]?
  else t[i.toNat]?

/-- The text with `new` in place of every line feed. -/
def replaceNewlines (new t : Text) : Text :=
  t.flatMap fun c => if c = CodePoint.newline then new else [c]

/-- The texts one after the other, with `separator` between any two. -/
def join (separator : Text) : List Text → Text
  | [] => []
  | [t] => t
  | t :: u :: ts => t ++ separator ++ join separator (u :: ts)

/-- The decimal digits of a number, most significant first. -/
def ofNat (n : Nat) : Text := (Nat.toDigits 10 n).map CodePoint.ofChar

/-- An integer in decimal, with a hyphen before a negative one. -/
def ofInt : Int → Text
  | .ofNat n => ofNat n
  | .negSucc n => ofString "-" ++ ofNat (n + 1)

/-- The characters of a text as a string; a surrogate, which no string can hold,
becomes the replacement character. -/
def toString (t : Text) : String :=
  String.ofList (t.map fun c => if c.isSurrogate then '\uFFFD' else Char.ofNat c.val)

end Text

end Peg
