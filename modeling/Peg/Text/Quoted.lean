import Peg.Text.Printable

/-!
# Quoted texts

A text inside a message is quoted: between single quotes, unless it holds a
single quote and no double quote, in which case between double quotes. The quote
in use and the backslash are escaped by a backslash, and a code point that is not
printable is written by an escape that names it, in the shortest of the forms
`\n`, `\r`, `\t`, `\xhh`, `\uhhhh` and `\Uhhhhhhhh` that it has.
-/

namespace Peg

namespace CodePoint

def singleQuote : CodePoint := ofChar '\''

def doubleQuote : CodePoint := ofChar '"'

def backslash : CodePoint := ofChar '\\'

/-- The `width` lowest hexadecimal digits of `n`, in lower case. -/
def hexDigits : (width n : Nat) → Text
  | 0, _ => []
  | width + 1, n => hexDigits width (n / 16) ++ [ofChar (Nat.digitChar (n % 16))]

/-- The escape that names a code point by its number. -/
def numericEscape (c : CodePoint) : Text :=
  if c.val ≤ 0xFF then backslash :: ofChar 'x' :: hexDigits 2 c.val
  else if c.val ≤ 0xFFFF then backslash :: ofChar 'u' :: hexDigits 4 c.val
  else backslash :: ofChar 'U' :: hexDigits 8 c.val

/-- How a code point is written between two `quote`s. -/
def quotedBetween (quote c : CodePoint) : Text :=
  if c = quote ∨ c = backslash then [backslash, c]
  else if c = ofChar '\n' then [backslash, ofChar 'n']
  else if c = ofChar '\r' then [backslash, ofChar 'r']
  else if c = ofChar '\t' then [backslash, ofChar 't']
  else if c.isPrintable then [c]
  else c.numericEscape

end CodePoint

namespace Text

/-- The quote that a text is written between. -/
def quoteFor (t : Text) : CodePoint :=
  if CodePoint.singleQuote ∈ t ∧ CodePoint.doubleQuote ∉ t then CodePoint.doubleQuote
  else CodePoint.singleQuote

/-- A text as it is written inside a message. -/
def quoted (t : Text) : Text :=
  [t.quoteFor] ++ t.flatMap (CodePoint.quotedBetween t.quoteFor) ++ [t.quoteFor]

end Text

end Peg
