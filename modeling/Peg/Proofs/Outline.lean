import Peg.Proofs.Furthest
import Peg.Proofs.Labels
import Peg.Proofs.Lines

/-!
# The outline of an error

The headline of an error is written from the inside out: that of a child is indented as a
whole when it becomes part of its parent's, and again when that one becomes part of the next.
What comes out is an outline of the tree. Each error of it stands in the place where a walk
through the tree from left to right comes to it, and how far in it stands says how deep it is.

`treeAt` is that walk, with the depth of every error, and `shownAt` says what an error looks
like at a depth. To indent an outline is to count the depth from one level further out, which
is what the induction turns on. Labels have to be texts, and nothing is asked of the texts: a
message or a label may have line feeds of its own, and then the further lines stand below the
first.
-/

namespace Peg

variable {α : Type}

namespace ParseError

mutual

/-- The errors of the tree, each before those that it consists of, with their depths. -/
def treeAt (depth : Nat) : ParseError α → List (Nat × ParseError α)
  | leaf reason pos labels => [(depth, leaf reason pos labels)]
  | exhausted children pos labels =>
    (depth, exhausted children pos labels) :: treesAt (depth + 1) children

def treesAt (depth : Nat) : List (ParseError α) → List (Nat × ParseError α)
  | [] => []
  | e :: es => e.treeAt depth ++ treesAt depth es

end

/-- What stands in front of the first line of an error. -/
def bullet : (depth : Nat) → Text
  | 0 => []
  | depth + 1 => List.replicate (4 * depth) CodePoint.space ++ "  - "

/-- What stands in front of the further lines of an error. -/
def margin (depth : Nat) : Text := List.replicate (4 * depth) CodePoint.space

/-- The lines of an error in the outline. -/
def shownAt (depth : Nat) (e : ParseError α) : List Text :=
  Text.hang (bullet depth) (margin depth) e.words.lines

/-- The lines of all errors of a tree. -/
def outline (depth : Nat) (e : ParseError α) : List Text :=
  (e.treeAt depth).flatMap fun x => x.2.shownAt x.1

/-! ## The walk -/

theorem treesAt_eq_flatMap (depth : Nat) (es : List (ParseError α)) :
    treesAt depth es = es.flatMap (treeAt depth) := by
  induction es with
  | nil => rfl
  | cons e es ih => rw [treesAt, ih, List.flatMap_cons]

theorem treeAt_exhausted (depth : Nat) (es : List (ParseError α)) (pos : Int)
    (labels : List (Value α)) : (exhausted es pos labels).treeAt depth =
      (depth, exhausted es pos labels) :: es.flatMap (treeAt (depth + 1)) := by
  rw [treeAt, treesAt_eq_flatMap]

theorem treesOf_eq_flatMap (es : List (ParseError α)) : treesOf es = es.flatMap tree := by
  induction es with
  | nil => rfl
  | cons e es ih => rw [treesOf, ih, List.flatMap_cons]

/-- The walk comes to the errors of the tree, in their order. -/
theorem map_snd_treeAt (e : ParseError α) (depth : Nat) :
    (e.treeAt depth).map Prod.snd = e.tree := by
  induction e using induct generalizing depth with
  | leaf reason pos labels => rfl
  | exhausted es pos labels ih =>
      rw [treeAt_exhausted, tree, treesOf_eq_flatMap, List.map_cons, List.map_flatMap]
      exact congrArg _ (List.flatMap_congr fun e he => ih e he (depth + 1))

/-- One level further down every depth is one more. -/
theorem treeAt_succ (e : ParseError α) (depth : Nat) :
    e.treeAt (depth + 1) = (e.treeAt depth).map fun x => (x.1 + 1, x.2) := by
  induction e using induct generalizing depth with
  | leaf reason pos labels => rfl
  | exhausted es pos labels ih =>
      rw [treeAt_exhausted, treeAt_exhausted, List.map_cons, List.map_flatMap]
      exact congrArg _ (List.flatMap_congr fun e he => ih e he (depth + 1))

theorem depth_le_of_mem_treeAt {e : ParseError α} {depth : Nat} {x : Nat × ParseError α}
    (h : x ∈ e.treeAt depth) : depth ≤ x.1 := by
  induction e using induct generalizing depth with
  | leaf reason pos labels => rw [List.mem_singleton.mp h]
  | exhausted es pos labels ih =>
      rw [treeAt_exhausted] at h
      rcases List.mem_cons.mp h with rfl | h
      · exact Nat.le_refl _
      · obtain ⟨e, he, hx⟩ := List.mem_flatMap.mp h
        exact Nat.le_of_succ_le (ih e he hx)

/-! ## Indentation -/

/-- What an outline is indented by. -/
def indentation : Text := "    "

theorem margin_succ (depth : Nat) : margin (depth + 1) = indentation ++ margin depth := by
  rw [margin, Nat.mul_add, Nat.add_comm, List.replicate_add]
  rfl

theorem bullet_succ {depth : Nat} (h : 0 < depth) :
    bullet (depth + 1) = indentation ++ bullet depth := by
  obtain ⟨depth, rfl⟩ : ∃ k, depth = k + 1 := ⟨depth - 1, by omega⟩
  have hmargin : bullet (depth + 1 + 1) = margin (depth + 1) ++ "  - " := rfl
  rw [hmargin, margin_succ, List.append_assoc]
  rfl

theorem shownAt_succ {depth : Nat} (h : 0 < depth) (e : ParseError α) :
    e.shownAt (depth + 1) = (e.shownAt depth).map (indentation ++ ·) := by
  rw [shownAt, shownAt, bullet_succ h, margin_succ]
  cases e.words.lines <;> simp [Text.hang]

theorem shownAt_ne_nil (depth : Nat) (e : ParseError α) : e.shownAt depth ≠ [] := by
  rw [shownAt]
  cases h : e.words.lines with
  | nil => exact absurd h Text.lines_ne_nil
  | cons l ls => simp [Text.hang]

theorem shownAt_zero (e : ParseError α) : e.shownAt 0 = e.words.lines := Text.hang_nil

theorem shownAt_one (e : ParseError α) :
    e.shownAt 1 = Text.hang "  - " indentation (e.shownAt 0) := by
  rw [shownAt_zero]
  rfl

theorem flatMap_shownAt_succ {xs : List (Nat × ParseError α)} (h : ∀ x ∈ xs, 0 < x.1) :
    (xs.map fun x => (x.1 + 1, x.2)).flatMap (fun x => x.2.shownAt x.1) =
      (xs.flatMap fun x => x.2.shownAt x.1).map (indentation ++ ·) := by
  rw [List.flatMap_map, List.map_flatMap]
  exact List.flatMap_congr fun x hx => shownAt_succ (h x hx) x.2

/-- The outline of a child, one level further in, is that of the child as a tree of its own
with a bullet at its front. -/
theorem outline_one (e : ParseError α) :
    e.outline 1 = Text.hang "  - " indentation (e.outline 0) := by
  rw [outline, treeAt_succ, outline]
  cases e with
  | leaf reason pos labels => simpa [treeAt] using shownAt_one (leaf reason pos labels)
  | exhausted es pos labels =>
      have hdepth : ∀ x ∈ es.flatMap (treeAt 1), 0 < x.1 := by
        intro x hx
        obtain ⟨e, -, hx⟩ := List.mem_flatMap.mp hx
        exact depth_le_of_mem_treeAt hx
      rw [treeAt_exhausted, List.map_cons, List.flatMap_cons, List.flatMap_cons,
        flatMap_shownAt_succ hdepth, Text.hang_append (shownAt_ne_nil 0 _), shownAt_one]

theorem outline_exhausted (es : List (ParseError α)) (pos : Int) (labels : List (Value α)) :
    (exhausted es pos labels).outline 0 =
      (exhausted es pos labels).words.lines ++ es.flatMap (outline 1) := by
  rw [outline, treeAt_exhausted, List.flatMap_cons, shownAt_zero, List.flatMap_assoc]
  rfl

/-! ## Headlines -/

variable [Named α]

/-- Below a text come the lines of the errors in the list. -/
theorem exists_lines_outlineBelow (t : Text) {es : List (ParseError α)}
    (h : ∀ e ∈ es, ∃ u, e.headline = .ok u ∧ u.lines = e.outline 0) :
    ∃ u, outlineBelow es = .ok u ∧ (t ++ u).lines = t.lines ++ es.flatMap (outline 1) := by
  induction es generalizing t with
  | nil =>
      rw [outlineBelow]
      exact ⟨[], rfl, by rw [List.append_nil, List.flatMap_nil, List.append_nil]⟩
  | cons e es ih =>
      obtain ⟨first, hfirst, hlines⟩ := h e List.mem_cons_self
      have hchild : (("  - " : Text) ++
          Text.replaceNewlines (CodePoint.newline :: indentation) first).lines = e.outline 1 := by
        rw [Text.lines_indent (by decide) (by decide), hlines, outline_one]
      obtain ⟨u, hu, hbelow⟩ := ih (("  - " : Text) ++
        Text.replaceNewlines (CodePoint.newline :: indentation) first)
        fun e' he' => h e' (List.mem_cons_of_mem _ he')
      refine ⟨CodePoint.newline :: ((("  - " : Text) ++
        Text.replaceNewlines (CodePoint.newline :: indentation) first) ++ u), ?_, ?_⟩
      · rw [outlineBelow, hfirst, hu]
        rfl
      · rw [Text.lines_append_newline, hbelow, hchild, List.flatMap_cons]

/-- The lines of the headline of an error are the outline of its tree: every error of the
tree in its place, with a bullet and a margin that show how deep it is. -/
theorem lines_headline (e : ParseError α) (h : e.HasTextLabels) :
    (e.treeAt 0).map Prod.snd = e.tree ∧
      ∃ t, e.headline = .ok t ∧ t.lines = (e.treeAt 0).flatMap fun x => x.2.shownAt x.1 := by
  refine ⟨e.map_snd_treeAt 0, ?_⟩
  induction e using induct with
  | leaf reason pos labels =>
      rw [headline, ownHeadline_eq h, treeAt, List.flatMap_singleton, shownAt_zero]
      exact ⟨_, rfl, rfl⟩
  | exhausted es pos labels ih =>
      obtain ⟨u, hu, hbelow⟩ := exists_lines_outlineBelow (exhausted es pos labels).words
        fun e he => ih e he (h.child he)
      rw [headline, ownHeadline_eq h, hu]
      exact ⟨_, rfl, hbelow.trans (outline_exhausted es pos labels).symm⟩

/-- A choice inside a choice. A message and a label have a line feed each, and the innermost
error left two captures. -/
def wrapped : ParseError Months.Action :=
  .exhausted [.exhausted [.leaf (.message "a\nb") 0 [.text "x", .text "y"]] 0 []] 0
    [.text "l\nm"]

theorem lines_headline_wrapped : wrapped.HasTextLabels ∧ ∃ t, wrapped.headline = .ok t ∧
    t.lines = ["(l", "m) none of 1 alternatives matched", "  - none of 1 alternatives matched",
      "      - (y.x) a", "        b"] := by
  have hlabels : wrapped.HasTextLabels := by
    simp [HasTextLabels, wrapped, tree, treesOf, labels]
  obtain ⟨-, t, ht, hlines⟩ := lines_headline wrapped hlabels
  exact ⟨hlabels, t, ht, hlines.trans (by decide)⟩

end ParseError

end Peg
