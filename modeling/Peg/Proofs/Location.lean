import Mathlib.Data.List.TakeWhile
import Mathlib.Data.Prod.Lex
import Peg.Proofs.ErrorPosition
import Peg.Proofs.Lines

/-!
# The place of a position

An excerpt shows where a position is: the number of its line and its column, what the text
goes on with, the line itself, and a caret under the place. All this is found by counting,
in numbers that start at zero and numbers that start at one. `Text.Locates` says what a
place has to be without any of it: one line more than there are line feeds in front, and a
start of the line with no line feed between it and the position. Only one place is of this
kind (`Locates.unique`), and a position further on has a greater one (`Locates.lt`).

That the right line is shown goes by the cut in `exists_line`. The text up to the position
is what stands above the line, and then the part of the line in front of the position. What
stands above is empty or ends in a line feed, so each line feed of it ends one line of the
text, and the line of the position is the next.
-/

namespace Peg

namespace Text

variable {t : Text} {i pos pos' : Nat} {p p' : Place}

/-- The place is that of the position. -/
structure Locates (t : Text) (pos : Nat) (p : Place) : Prop where
  line : p.line = 1 + (t.take pos).count CodePoint.newline
  column : p.lineStart + p.column = pos + 1
  lineStart_le : p.lineStart ≤ pos
  starts : p.lineStart = 0 ∨ ∃ i, p.lineStart = i + 1 ∧ t[i]? = some CodePoint.newline
  sameLine : ∀ i, p.lineStart ≤ i → i < pos → t[i]? ≠ some CodePoint.newline

/-! ## One place for each position -/

/-- A line feed between two positions is in front of the second alone. -/
theorem count_take_lt (hi : t[i]? = some CodePoint.newline) (hpos : pos ≤ i) (hpos' : i < pos') :
    (t.take pos).count CodePoint.newline < (t.take pos').count CodePoint.newline := by
  have hsplit : t.take pos' = t.take pos ++ (t.take pos').drop pos := by
    have htake := List.take_append_drop pos (t.take pos')
    rw [List.take_take, Nat.min_eq_left (by omega)] at htake
    exact htake.symm
  have hmem : CodePoint.newline ∈ (t.take pos').drop pos := by
    refine List.mem_of_getElem? (i := i - pos) ?_
    rw [List.getElem?_drop, Nat.add_sub_cancel' hpos, List.getElem?_take_of_lt hpos', hi]
  have hcount := List.count_pos_iff.mpr hmem
  rw [hsplit, List.count_append]
  omega

theorem count_take_le (h : pos ≤ pos') :
    (t.take pos).count CodePoint.newline ≤ (t.take pos').count CodePoint.newline :=
  (List.take_sublist_take_left h).count_le _

/-- Positions on one line have one start: neither is later than the other. -/
theorem Locates.lineStart_le_of_line_eq (h : t.Locates pos p) (h' : t.Locates pos' p')
    (hline : p.line = p'.line) : p'.lineStart ≤ p.lineStart := by
  rcases h'.starts with hstart | ⟨i, hstart, hi⟩
  · omega
  · have hbehind : i < pos' := by
      have hle := h'.lineStart_le
      omega
    have hfront : i < pos := by
      by_contra hge
      have hlt := count_take_lt hi (Nat.le_of_not_lt hge) hbehind
      have hp := h.line
      have hp' := h'.line
      omega
    by_contra hlt
    exact h.sameLine i (by omega) hfront hi

theorem Locates.unique (h : t.Locates pos p) (h' : t.Locates pos p') : p = p' := by
  have hline : p.line = p'.line := h.line.trans h'.line.symm
  have hstart : p.lineStart = p'.lineStart :=
    Nat.le_antisymm (h'.lineStart_le_of_line_eq h hline.symm)
      (h.lineStart_le_of_line_eq h' hline)
  have hcolumn : p.column = p'.column := by
    have hp := h.column
    have hp' := h'.column
    omega
  obtain ⟨line, column, lineStart⟩ := p
  obtain ⟨line', column', lineStart'⟩ := p'
  cases hline
  cases hstart
  cases hcolumn
  rfl

/-- Places are ordered as their positions are: by lines, and on a line by columns. -/
theorem Locates.lt (h : t.Locates pos p) (h' : t.Locates pos' p') (hpos : pos < pos') :
    toLex (p.line, p.column) < toLex (p'.line, p'.column) := by
  rw [Prod.Lex.toLex_lt_toLex]
  rcases Nat.lt_or_ge p.line p'.line with hlt | hge
  · exact .inl hlt
  · have hline : p.line = p'.line := by
      have hle : p.line ≤ p'.line := by
        rw [h.line, h'.line]
        exact Nat.add_le_add_left (count_take_le (Nat.le_of_lt hpos)) 1
      exact Nat.le_antisymm hle hge
    have hstart := h.lineStart_le_of_line_eq h' hline
    have hp := h.column
    have hp' := h'.column
    exact .inr ⟨hline, by show p.column < p'.column; omega⟩

/-! ## The cut at the start of the line -/

/-- What stands above a line. -/
def IsAbove (above : Text) : Prop := above = [] ∨ ∃ u, above = u ++ [CodePoint.newline]

/-- A text in front of a position, cut after its last line feed. -/
theorem exists_above (front : Text) : ∃ above onLine, front = above ++ onLine ∧
    CodePoint.newline ∉ onLine ∧ IsAbove above ∧
      (front.reverse.takeWhile (· ≠ CodePoint.newline)).length = onLine.length := by
  have hcut := List.takeWhile_append_dropWhile (p := (· ≠ CodePoint.newline)) (l := front.reverse)
  refine ⟨(front.reverse.dropWhile (· ≠ CodePoint.newline)).reverse,
    (front.reverse.takeWhile (· ≠ CodePoint.newline)).reverse, ?_, ?_, ?_,
    List.length_reverse.symm⟩
  · rw [← List.reverse_append, hcut, List.reverse_reverse]
  · intro hmem
    have hne := List.mem_takeWhile_imp (List.mem_reverse.mp hmem)
    simp at hne
  · cases hrest : front.reverse.dropWhile (· ≠ CodePoint.newline) with
    | nil => exact .inl rfl
    | cons c cs =>
        have hne : front.reverse.dropWhile (· ≠ CodePoint.newline) ≠ [] :=
          hrest ▸ List.cons_ne_nil c cs
        have hhead := List.head_dropWhile_not (· ≠ CodePoint.newline) hne
        simp only [hrest, List.head_cons] at hhead
        have hc : c = CodePoint.newline := not_not.mp (of_decide_eq_false hhead)
        exact .inr ⟨cs.reverse, by rw [hc, List.reverse_cons]⟩

/-- A text, cut at a position and where the line of the position starts. -/
theorem exists_line (hpos : pos ≤ t.length) : ∃ above onLine rest,
    t = above ++ (onLine ++ rest) ∧ CodePoint.newline ∉ onLine ∧ IsAbove above ∧
      pos = above.length + onLine.length ∧
      t.place pos = ⟨above.count CodePoint.newline + 1, onLine.length + 1, above.length⟩ := by
  obtain ⟨above, onLine, hfront, hline, habove, hlength⟩ := exists_above (t.take pos)
  have hsum : pos = above.length + onLine.length := by
    rw [← List.length_append, ← hfront, List.length_take, Nat.min_eq_left hpos]
  refine ⟨above, onLine, t.drop pos, ?_, hline, habove, hsum, ?_⟩
  · rw [← List.append_assoc, ← hfront, List.take_append_drop]
  · have hcount : (t.take pos).count CodePoint.newline = above.count CodePoint.newline := by
      rw [hfront, List.count_append, List.count_eq_zero_of_not_mem hline, Nat.add_zero]
    have hstart : (t.take pos).length - onLine.length = above.length := by
      rw [hfront, List.length_append, Nat.add_sub_cancel]
    have hcolumn : pos - above.length = onLine.length := by omega
    simp only [place, Int.toNat_natCast, hlength, hcount, hstart, hcolumn]

theorem locates_place (hpos : pos ≤ t.length) : t.Locates pos (t.place pos) := by
  obtain ⟨above, onLine, rest, rfl, hline, habove, rfl, hplace⟩ := exists_line hpos
  have htake : (above ++ (onLine ++ rest)).take (above.length + onLine.length) =
      above ++ onLine := by
    rw [List.take_length_add_append, List.take_left]
  rw [hplace]
  refine ⟨?_, by show above.length + (onLine.length + 1) = _; omega, Nat.le_add_right _ _, ?_, ?_⟩
  · rw [htake, List.count_append, List.count_eq_zero_of_not_mem hline]
    exact Nat.add_comm _ _
  · rcases habove with rfl | ⟨u, rfl⟩
    · exact .inl rfl
    · refine .inr ⟨u.length, by simp, ?_⟩
      rw [List.append_assoc, List.getElem?_append_right (Nat.le_refl _), Nat.sub_self]
      rfl
  · intro i (hstart : above.length ≤ i) hi hnewline
    have hindex : i - above.length < onLine.length := by omega
    rw [List.getElem?_append_right hstart, List.getElem?_append_left hindex] at hnewline
    exact hline (List.mem_of_getElem? hnewline)

/-! ## The line of a position -/

/-- Below what stands above a line comes the line. -/
theorem getElem?_lines {above : Text} (h : IsAbove above) (s : Text) :
    (above ++ s).lines[above.count CodePoint.newline]? = s.lines.head? := by
  rcases h with rfl | ⟨u, rfl⟩
  · exact List.head?_eq_getElem?.symm
  · have hindex : (u ++ [CodePoint.newline]).count CodePoint.newline = u.lines.length := by
      rw [length_lines, List.count_append]
      rfl
    have hlines : (u ++ [CodePoint.newline] ++ s).lines = u.lines ++ s.lines := by
      rw [List.append_assoc]
      exact lines_append_newline
    rw [hindex, hlines, List.getElem?_append_right (Nat.le_refl _), Nat.sub_self,
      List.head?_eq_getElem?]

/-- The line that an excerpt shows is the one that it numbers, and the caret stands below
it or just behind it. -/
theorem lineFrom_place (hpos : pos ≤ t.length) :
    t.lines[(t.place pos).line - 1]? = some (t.lineFrom (t.place pos).lineStart) ∧
      (t.place pos).column - 1 ≤ (t.lineFrom (t.place pos).lineStart).length := by
  obtain ⟨above, onLine, rest, rfl, hline, habove, rfl, hplace⟩ := exists_line hpos
  have hsource : lineFrom (above ++ (onLine ++ rest)) above.length =
      onLine ++ rest.takeWhile (· ≠ CodePoint.newline) := by
    rw [lineFrom, List.drop_left]
    exact List.takeWhile_append_of_pos fun c hc => decide_eq_true fun heq => hline (heq ▸ hc)
  rw [hplace]
  constructor
  · rw [Nat.add_sub_cancel, getElem?_lines habove, head?_lines, lineFrom, List.drop_left]
  · rw [hsource, List.length_append, Nat.add_sub_cancel]
    exact Nat.le_add_right _ _

/-! ## Excerpts -/

theorem newline_not_mem_ofNat (n : Nat) : CodePoint.newline ∉ ofNat n := by
  intro h
  obtain ⟨c, hc, heq⟩ := List.mem_map.mp h
  have hdigit : c.isDigit = true := Nat.isDigit_of_mem_toDigits (by decide) (by decide) hc
  have hval : c.val.toNat = 10 := congrArg Fin.val heq
  simp only [Char.isDigit, Bool.and_eq_true, decide_eq_true_eq] at hdigit
  have hle := UInt32.le_iff_toNat_le.mp hdigit.1
  rw [hval] at hle
  exact absurd hle (by decide)

theorem newline_not_mem_replaceNewlines {new : Text} (h : CodePoint.newline ∉ new) (t : Text) :
    CodePoint.newline ∉ replaceNewlines new t := by
  intro hmem
  obtain ⟨c, -, hc⟩ := List.mem_flatMap.mp hmem
  split at hc
  · exact h hc
  · next hne => exact hne (List.mem_singleton.mp hc).symm

theorem replaceNewlines_eq_nil_iff {new : Text} (h : new ≠ []) :
    replaceNewlines new t = [] ↔ t = [] := by
  cases t with
  | nil => simp [replaceNewlines]
  | cons c cs =>
      by_cases hc : c = CodePoint.newline <;> simp [replaceNewlines, hc, h]

/-! ### The four lines -/

/-- The line of an excerpt that names the place. -/
def headingLine (p : Place) : Text :=
  "Line " ++ ofNat p.line ++ ", Column " ++ ofNat p.column ++ ":"

/-- The line of an excerpt that shows what comes next. -/
def foundLine (next : Text) : Text :=
  if next = [] then "Found: end of input" else "Found: '" ++ replaceNewlines "\\n" next ++ "'"

/-- The line of an excerpt that points at the column. -/
def caretLine (p : Place) : Text := List.replicate (p.column - 1) CodePoint.space ++ "^"

theorem newline_not_mem_headingLine (p : Place) : CodePoint.newline ∉ headingLine p := by
  simp only [headingLine, List.mem_append, not_or]
  exact ⟨⟨⟨⟨by decide, newline_not_mem_ofNat _⟩, by decide⟩, newline_not_mem_ofNat _⟩, by decide⟩

theorem newline_not_mem_foundLine (next : Text) : CodePoint.newline ∉ foundLine next := by
  rw [foundLine]
  split
  · decide
  · simp only [List.mem_append, not_or]
    exact ⟨⟨by decide, newline_not_mem_replaceNewlines (by decide) _⟩, by decide⟩

theorem newline_not_mem_lineFrom (t : Text) (lineStart : Nat) :
    CodePoint.newline ∉ t.lineFrom lineStart := by
  intro hmem
  have hne := List.mem_takeWhile_imp hmem
  simp at hne

theorem newline_not_mem_caretLine (p : Place) : CodePoint.newline ∉ caretLine p := by
  simp only [caretLine, List.mem_append, List.mem_replicate, not_or, not_and]
  exact ⟨fun _ => by decide, by decide⟩

theorem excerpt_eq (t : Text) (pos lookahead : Int) :
    t.excerpt pos lookahead = headingLine (t.place pos) ++ CodePoint.newline ::
      (foundLine (t.slice pos (pos + lookahead)) ++ CodePoint.newline ::
        (t.lineFrom (t.place pos).lineStart ++ CodePoint.newline :: caretLine (t.place pos))) := by
  have hfound : (if (t.upcoming pos lookahead).isEmpty then "\nFound: end of input"
      else "\nFound: '" ++ t.upcoming pos lookahead ++ "'" : Text) =
        CodePoint.newline :: foundLine (t.slice pos (pos + lookahead)) := by
    simp only [List.isEmpty_iff, upcoming, foundLine]
    rw [if_congr (replaceNewlines_eq_nil_iff (by decide)) rfl rfl]
    split <;> rfl
  simp only [excerpt, hfound, headingLine, caretLine]
  simp only [List.append_assoc, List.cons_append]
  rfl

/-- None of the four lines has a line feed of its own. -/
theorem lines_excerpt (t : Text) (pos lookahead : Int) :
    (t.excerpt pos lookahead).lines = [headingLine (t.place pos),
      foundLine (t.slice pos (pos + lookahead)), t.lineFrom (t.place pos).lineStart,
      caretLine (t.place pos)] := by
  rw [excerpt_eq, lines_append_newline, lines_append_newline, lines_append_newline,
    lines_of_not_mem (newline_not_mem_headingLine _),
    lines_of_not_mem (newline_not_mem_foundLine _),
    lines_of_not_mem (newline_not_mem_lineFrom _ _),
    lines_of_not_mem (newline_not_mem_caretLine _)]
  rfl

/-- What comes next at a position of the text. -/
theorem slice_upcoming (hpos : pos ≤ t.length) (lookahead : Nat) :
    t.slice pos (pos + lookahead) = (t.drop pos).take (min lookahead (t.length - pos)) := by
  rw [slice_eq_take (Int.natCast_nonneg pos) (Int.ofNat_le.mpr hpos), Int.toNat_natCast,
    ← List.length_drop, ← List.take_eq_take_min]

/-- Every position of a text has one place, and greater positions have greater places. The
excerpt for it consists of four lines: the place, the code points that come next, the line
of the text that has the number in the place, and a caret below it or just behind it. -/
theorem excerpt_locates (t : Text) {pos : Nat} (hpos : pos ≤ t.length) :
    (∀ p, t.Locates pos p ↔ p = t.place pos) ∧
    (∀ pos' : Nat, pos < pos' → pos' ≤ t.length →
      toLex ((t.place pos).line, (t.place pos).column) <
        toLex ((t.place pos').line, (t.place pos').column)) ∧
    ∃ source, t.lines[(t.place pos).line - 1]? = some source ∧
      (t.place pos).column - 1 ≤ source.length ∧
      ∀ lookahead : Nat, (t.excerpt pos lookahead).lines = [headingLine (t.place pos),
        foundLine ((t.drop pos).take (min lookahead (t.length - pos))), source,
        caretLine (t.place pos)] := by
  have hplace := locates_place hpos
  obtain ⟨hsource, hcaret⟩ := lineFrom_place hpos
  refine ⟨fun p => ⟨fun hp => hp.unique hplace, fun hp => hp ▸ hplace⟩,
    fun pos' hlt hle => hplace.lt (locates_place hle) hlt, _, hsource, hcaret, fun lookahead => ?_⟩
  rw [lines_excerpt, slice_upcoming hpos]

/-- The position of a line feed is the last of its line; the next one starts the line after
it, here an empty one. -/
theorem excerpt_locates_feed :
    2 ≤ (ofString "ab\n").length ∧ 3 ≤ (ofString "ab\n").length ∧
      Locates "ab\n" 2 ⟨1, 3, 0⟩ ∧ Locates "ab\n" 3 ⟨2, 1, 3⟩ ∧
      toLex (1, 3) < toLex (2, 1) ∧
      (excerpt "ab\n" 2 20).lines =
        ["Line 1, Column 3:", "Found: '\\n'", "ab", "  ^"] ∧
      (excerpt "ab\n" 3 20).lines =
        ["Line 2, Column 1:", "Found: end of input", "", "^"] := by
  have htwo : 2 ≤ (ofString "ab\n").length := by decide
  have hthree : 3 ≤ (ofString "ab\n").length := by decide
  obtain ⟨honly, hlt, source, hsource, -, hlines⟩ := excerpt_locates "ab\n" htwo
  obtain ⟨honly', -, source', hsource', -, hlines'⟩ := excerpt_locates "ab\n" hthree
  cases hsource
  cases hsource'
  exact ⟨htwo, hthree, (honly _).mpr rfl, (honly' _).mpr rfl, hlt 3 (by decide) hthree,
    hlines 20, hlines' 20⟩

end Text

end Peg
