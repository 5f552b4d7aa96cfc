import Peg.Text.Basic

/-!
# Lines, columns and excerpts

A position in a text is shown to a reader as a line and a column, both counted
from one, with an excerpt: what the text goes on with, the line it is on, and a
caret under the place. A position before the text counts as its start; one past
the end is on the last line, as many columns further right as it is past it.
-/

namespace Peg

/-- A place in a text: line and column from one, and the offset of the line. -/
structure Place where
  line : Nat
  column : Nat
  lineStart : Nat
  deriving DecidableEq, Repr

namespace Text

/-- The place of a position. -/
def place (t : Text) (pos : Int) : Place :=
  let before := t.take pos.toNat
  let lineStart :=
    before.length - (before.reverse.takeWhile (· ≠ CodePoint.newline)).length
  { line := before.count CodePoint.newline + 1
    column := pos.toNat - lineStart + 1
    lineStart }

/-- The line that starts at the offset `lineStart`, without its line feed. -/
def lineFrom (t : Text) (lineStart : Nat) : Text :=
  (t.drop lineStart).takeWhile (· ≠ CodePoint.newline)

/-- How many code points an excerpt shows of what follows a position. -/
def defaultLookahead : Int := 20

/-- What the text goes on with at a position, on one line. -/
def upcoming (t : Text) (pos lookahead : Int) : Text :=
  replaceNewlines "\\n" (t.slice pos (pos + lookahead))

/-- The excerpt shown for a position: four lines when the position is one of the
text. -/
def excerpt (t : Text) (pos lookahead : Int) : Text :=
  let place := t.place pos
  let next := t.upcoming pos lookahead
  let found : Text :=
    if next.isEmpty then "\nFound: end of input" else "\nFound: '" ++ next ++ "'"
  "Line " ++ ofNat place.line ++ ", Column " ++ ofNat place.column ++ ":" ++ found ++ "\n" ++
    t.lineFrom place.lineStart ++ "\n" ++
    (List.replicate (place.column - 1) CodePoint.space ++ "^")

end Text

end Peg
