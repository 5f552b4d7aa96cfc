import Peg.Text.Basic

/-!
# Lines

A text is a row of lines with a line feed between any two of them. There is always one line
more than there are line feeds, and an empty text is one empty line.

To indent a text is to put a prefix after each of its line feeds, and another one in front.
`lines_indent` says that this does to the lines what it looks like.
-/

namespace Peg

namespace Text

/-- The pieces of a text that its line feeds separate. -/
def lines (t : Text) : List Text := t.splitOn CodePoint.newline

/-- Lines with one prefix in front of the first, and another in front of all later ones. -/
def hang (first later : Text) : List Text → List Text
  | [] => []
  | l :: ls => (first ++ l) :: ls.map (later ++ ·)

variable {s t first later : Text} {ls ls' : List Text}

theorem lines_ne_nil : t.lines ≠ [] := List.splitOn_ne_nil _ _

theorem lines_append_newline : (s ++ CodePoint.newline :: t).lines = s.lines ++ t.lines :=
  List.splitOn_append_cons_self s t

theorem lines_cons_newline : lines (CodePoint.newline :: t) = [] :: t.lines :=
  lines_append_newline (s := [])

theorem lines_cons {c : CodePoint} (h : c ≠ CodePoint.newline) :
    lines (c :: t) = hang [c] [] t.lines := by
  rw [lines, List.splitOn_cons_eq_if_modifyHead, if_neg (by simpa using h)]
  cases ht : t.splitOn CodePoint.newline with
  | nil => exact absurd ht (List.splitOn_ne_nil _ _)
  | cons l ls => simp [lines, ht, hang]

theorem length_hang : (hang first later ls).length = ls.length := by
  cases ls <;> simp [hang]

theorem hang_nil : hang [] [] ls = ls := by
  cases ls <;> simp [hang]

theorem hang_self : hang first first ls = ls.map (first ++ ·) := by
  cases ls <;> rfl

theorem hang_hang (first' : Text) : hang first' [] (hang first later ls) =
    hang (first' ++ first) later ls := by
  cases ls <;> simp [hang]

theorem hang_later : hang [] later (hang first [] ls) = hang first later ls := by
  cases ls <;> simp [hang]

theorem hang_append (h : ls ≠ []) :
    hang first later (ls ++ ls') = hang first later ls ++ ls'.map (later ++ ·) := by
  cases ls with
  | nil => exact absurd rfl h
  | cons l ls => simp [hang]

/-- A prefix on the first line alone. -/
theorem lines_append (h : CodePoint.newline ∉ first) :
    (first ++ t).lines = hang first [] t.lines := by
  induction first with
  | nil => cases ht : t.lines <;> simp [hang, ht]
  | cons c cs ih =>
      rw [List.mem_cons, not_or] at h
      rw [List.cons_append, lines_cons (Ne.symm h.1), ih h.2, hang_hang]
      rfl

theorem lines_of_not_mem (h : CodePoint.newline ∉ t) : t.lines = [t] := by
  have hlines := lines_append (t := []) h
  rw [List.append_nil] at hlines
  rw [hlines]
  exact congrArg (· :: []) (List.append_nil t)

theorem length_lines (t : Text) : t.lines.length = t.count CodePoint.newline + 1 := by
  induction t with
  | nil => rfl
  | cons c cs ih =>
      by_cases hc : c = CodePoint.newline
      · subst hc
        rw [lines_cons_newline, List.length_cons, ih, List.count_cons_self]
      · rw [lines_cons hc, length_hang, ih, List.count_cons_of_ne hc]

/-- The first line ends in front of the first line feed. -/
theorem head?_lines (t : Text) :
    t.lines.head? = some (t.takeWhile (· ≠ CodePoint.newline)) := by
  induction t with
  | nil => rfl
  | cons c cs ih =>
      by_cases hc : c = CodePoint.newline
      · subst hc
        rw [lines_cons_newline, List.head?_cons, List.takeWhile_cons_of_neg (by simp)]
      · obtain ⟨ls, hls⟩ := List.head?_eq_some_iff.mp ih
        rw [lines_cons hc, hls, List.takeWhile_cons_of_pos (by simpa using hc)]
        rfl

/-- A text whose line feeds are followed by a prefix each. -/
theorem lines_replaceNewlines (h : CodePoint.newline ∉ later) :
    (replaceNewlines (CodePoint.newline :: later) t).lines = hang [] later t.lines := by
  induction t with
  | nil => rfl
  | cons c cs ih =>
      by_cases hc : c = CodePoint.newline
      · subst hc
        have hrest : replaceNewlines (CodePoint.newline :: later) (CodePoint.newline :: cs) =
            CodePoint.newline :: (later ++ replaceNewlines (CodePoint.newline :: later) cs) := rfl
        rw [hrest, lines_cons_newline, lines_append h, ih, lines_cons_newline, hang_hang,
          List.append_nil, hang_self]
        rfl
      · have hrest : replaceNewlines (CodePoint.newline :: later) (c :: cs) =
            c :: replaceNewlines (CodePoint.newline :: later) cs := by
          simp [replaceNewlines, hc]
        rw [hrest, lines_cons hc, ih, lines_cons hc, hang_hang, hang_later, List.append_nil]

/-- The lines of an indented text are the lines of the text, each with its prefix. -/
theorem lines_indent (hfirst : CodePoint.newline ∉ first) (hlater : CodePoint.newline ∉ later) :
    (first ++ replaceNewlines (CodePoint.newline :: later) t).lines = hang first later t.lines := by
  rw [lines_append hfirst, lines_replaceNewlines hlater, hang_hang, List.append_nil]

end Text

end Peg
