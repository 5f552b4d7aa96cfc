import Peg.Text.Basic

/-!
# The text under a match

A match looks at a text at many positions, so it holds the text as an array. The
three questions it asks are those of `Text`: the code point at an offset, the
slice between two offsets, and whether a given text stands at an offset.
-/

namespace Peg

/-- A text prepared for access by position. -/
structure Input where
  codes : Array CodePoint

namespace Input

def ofText (t : Text) : Input := ⟨t.toArray⟩

def size (input : Input) : Nat := input.codes.size

/-- The code point at the offset `i`; a negative offset counts from the end. -/
def at? (input : Input) (i : Int) : Option CodePoint :=
  if i < 0 then
    if i + input.size < 0 then none else input.codes[(i + input.size).toNat]?
  else input.codes[i.toNat]?

/-- The code points from the offset `i` up to the offset `j`. -/
def slice (input : Input) (i j : Int) : Text :=
  (input.codes.extract (Text.anchor input.size i) (Text.anchor input.size j)).toList

/-- Whether the code points from index `i` on start with `t`. -/
def startsAt (input : Input) : Text → Nat → Bool
  | [], _ => true
  | c :: cs, i => input.codes[i]? == some c && input.startsAt cs (i + 1)

/-- Whether `t` stands at the offset `i`. Past the end of the text nothing does,
not even the empty text. -/
def holds (input : Input) (t : Text) (i : Int) : Bool :=
  i ≤ input.size && input.startsAt t (Text.anchor input.size i)

/-- How often a match can be tried from `pos` on before it stops moving on. Nothing
moves on from past the end of the text, so there is one try for each position from
`pos` to the end, both included, and one for the position that the last of them leads
to. -/
def room (input : Input) (pos : Int) : Nat := (input.size - pos).toNat + 2

@[simp] theorem size_ofText (t : Text) : (ofText t).size = t.length := by
  simp [ofText, size]

@[simp] theorem codes_ofText (t : Text) : (ofText t).codes = t.toArray := rfl

theorem at?_ofText (t : Text) (i : Int) : (ofText t).at? i = t.at? i := by
  simp [at?, Text.at?]

theorem slice_ofText (t : Text) (i j : Int) : (ofText t).slice i j = t.slice i j := by
  simp [slice, Text.slice, List.drop_take]

theorem startsAt_ofText (t u : Text) (i : Nat) :
    (ofText t).startsAt u i = u.isPrefixOf (t.drop i) := by
  induction u generalizing i with
  | nil => simp [startsAt]
  | cons c cs ih =>
    rw [startsAt, ih]
    by_cases h : i < t.length
    · rw [List.drop_eq_getElem_cons h, List.isPrefixOf, codes_ofText,
        List.getElem?_toArray, List.getElem?_eq_getElem h, Option.some_beq_some,
        BEq.comm]
    · simp [List.drop_of_length_le (Nat.le_of_not_lt h),
        List.getElem?_eq_none (Nat.le_of_not_lt h)]

end Input

end Peg
