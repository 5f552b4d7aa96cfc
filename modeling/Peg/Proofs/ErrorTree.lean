import Peg.Proofs.Frames

/-!
# The tree of an error

An error consists of others, those of the alternatives of a choice, and so on down.
`ParseError.tree` lists all of them, the error itself first, and each of them before those
that it consists of.

Which errors can be in the tree of a failed match follows from how a match reports
(`Frame.Reports`): whatever is in the tree was, before it left any capture, created by some
match that the failed one visits. So no error starts before the one that it is part of, and
an error of an action in the tree means that an action was performed which did not return.
-/

namespace Peg

variable {α : Type}

namespace ParseError

mutual

/-- The error and all errors that it consists of. -/
def tree : ParseError α → List (ParseError α)
  | leaf reason pos labels => [leaf reason pos labels]
  | exhausted children pos labels => exhausted children pos labels :: treesOf children

def treesOf : List (ParseError α) → List (ParseError α)
  | [] => []
  | e :: es => e.tree ++ treesOf es

end

theorem mem_treesOf {e : ParseError α} {es : List (ParseError α)} :
    e ∈ treesOf es ↔ ∃ child ∈ es, e ∈ child.tree := by
  induction es with
  | nil => simp [treesOf]
  | cons child es ih => simp [treesOf, ih]

theorem mem_tree_exhausted {e : ParseError α} {children : List (ParseError α)} {pos : Int}
    {labels : List (Value α)} :
    e ∈ (exhausted children pos labels).tree ↔
      e = exhausted children pos labels ∨ ∃ child ∈ children, e ∈ child.tree := by
  rw [tree, List.mem_cons, mem_treesOf]

theorem self_mem_tree (e : ParseError α) : e ∈ e.tree := by
  cases e <;> simp [tree]

/-- A label changes nothing below the error itself. -/
theorem mem_tree_addLabel {e e' : ParseError α} {label : Value α}
    (h : e' ∈ (e.addLabel label).tree) : e' = e.addLabel label ∨ e' ∈ e.tree := by
  cases e with
  | leaf reason pos labels => exact .inl (List.mem_singleton.mp h)
  | exhausted children pos labels =>
      rw [addLabel] at h
      rcases mem_tree_exhausted.mp h with rfl | h
      · exact .inl rfl
      · exact .inr (mem_tree_exhausted.mpr (.inr h))

/-- The error before it left any capture. -/
def unlabelled : ParseError α → ParseError α
  | leaf reason pos _ => leaf reason pos []
  | exhausted children pos _ => exhausted children pos []

@[simp]
theorem unlabelled_addLabel (e : ParseError α) (label : Value α) :
    (e.addLabel label).unlabelled = e.unlabelled := by
  cases e <;> rfl

@[simp]
theorem pos_unlabelled (e : ParseError α) : e.unlabelled.pos = e.pos := by
  cases e <;> rfl

/-- No error of the tree starts before the one that it is part of. -/
def IsOrdered (e : ParseError α) : Prop :=
  ∀ e' ∈ e.tree, ∀ child ∈ e'.children, e'.pos ≤ child.pos

end ParseError

namespace Frame

variable [Named α] {ctx : Context α} {f : Frame α} {e e' : ParseError α}

/-- A match creates its own error, or the error is that of a match which it starts; those
that the error consists of are of such matches in either case. -/
theorem exists_started (h : f.outcome ctx = .failure e) (he' : e' ∈ e.tree) :
    f.Creates ctx e'.unlabelled ∨
      ∃ g e₀ e₁, f.Starts ctx g ∧ g.outcome ctx = .failure e₀ ∧ e₁ ∈ e₀.tree ∧
        e₁.unlabelled = e'.unlabelled := by
  cases reports_of_failure h with
  | started hstart hg => exact .inr ⟨_, _, e', hstart, hg, he', rfl⟩
  | @labelled g e label item _ hstart hg =>
      rcases ParseError.mem_tree_addLabel he' with rfl | hmem
      · exact .inr ⟨g, e, e, hstart, hg, e.self_mem_tree, (e.unlabelled_addLabel label).symm⟩
      · exact .inr ⟨g, e, e', hstart, hg, hmem, rfl⟩
  | created hcreates =>
      cases e with
      | leaf reason pos labels =>
          obtain rfl := List.mem_singleton.mp he'
          cases hcreates <;> exact .inl (by constructor <;> assumption)
      | exhausted children pos labels =>
          cases hcreates with
          | exhausted hes =>
              rcases ParseError.mem_tree_exhausted.mp he' with rfl | ⟨child, hchild, hmem⟩
              · exact .inl (.exhausted hes)
              · obtain ⟨g, hstart, hg⟩ := hes.started hchild
                exact .inr ⟨g, child, e', hstart, hg, hmem, rfl⟩

/-- Every error in the tree of a failure was created by some match of the run. -/
theorem exists_creates (h : f.outcome ctx = .failure e) (he' : e' ∈ e.tree) :
    ∃ g, f.Visits ctx g ∧ g.Creates ctx e'.unlabelled := by
  induction hlimit : f.limit generalizing f e e' with
  | zero => rw [outcome_of_limit hlimit] at h; cases h
  | succ levels ih =>
      rcases exists_started h he' with hcreates | ⟨g, e₀, e₁, hstart, hg, he₁, heq⟩
      · exact ⟨f, .refl, hcreates⟩
      · obtain ⟨k, hvisit, hcreates⟩ := ih hg he₁ (by have := hstart.limit_eq; omega)
        exact ⟨k, .head hstart hvisit, heq ▸ hcreates⟩

/-- No error in the tree of a failure starts before the match. -/
theorem le_pos_of_mem_tree (h : f.outcome ctx = .failure e) (he' : e' ∈ e.tree) :
    f.pos ≤ e'.pos := by
  obtain ⟨g, hvisit, hcreates⟩ := exists_creates h he'
  rw [← e'.pos_unlabelled, hcreates.pos_eq]
  exact hvisit.le_pos

/-- Where a choice is exhausted, the errors of its alternatives are those of a match at the
same position. -/
theorem exists_exhausts {children : List (ParseError α)} {pos : Int} {labels : List (Value α)}
    (h : f.outcome ctx = .failure e) (he' : .exhausted children pos labels ∈ e.tree) :
    ∃ g, f.Visits ctx g ∧ g.pos = pos ∧ g.Exhausts ctx children := by
  obtain ⟨g, hvisit, hcreates⟩ := exists_creates h he'
  cases hcreates with
  | exhausted hes => exact ⟨g, hvisit, rfl, hes⟩

theorem isOrdered_of_failure (h : f.outcome ctx = .failure e) : e.IsOrdered := by
  intro e' he' child hchild
  cases e' with
  | leaf reason pos labels => cases hchild
  | exhausted children pos labels =>
      obtain ⟨g, -, rfl, hes⟩ := exists_exhausts h he'
      obtain ⟨k, hstart, hk⟩ := hes.started hchild
      exact Int.le_trans hstart.le_pos (le_pos_of_mem_tree hk child.self_mem_tree)

/-- Where an error of an action is in the tree of a failure, an action was performed that
did not return. -/
theorem exists_performs_of_transform (h : f.outcome ctx = .failure e) (he' : e' ∈ e.tree)
    (hkind : e'.kind = .transform) :
    ∃ g limit act v stop, f.Visits ctx g ∧ g.Performs ctx limit act v stop ∧
      ¬ ctx.Returns limit act v := by
  obtain ⟨g, hvisit, hcreates⟩ := exists_creates h he'
  cases e' with
  | exhausted children pos labels => cases hkind
  | leaf reason pos labels =>
      cases hcreates with
      | mismatch | excluded => cases hkind
      | @transform limit act v stop _ _ hact hfinish =>
          refine ⟨g, limit, act, v, stop, hvisit, hact, fun hreturns => ?_⟩
          obtain ⟨w, hw⟩ := hreturns.finish g.pos stop
          cases hfinish.symm.trans hw

end Frame

namespace Months

/-- The grammar has no actions. -/
inductive Action

instance : Named Action := ⟨nofun, nofun⟩

/-- The rule `month = "0" digit | "1" ("0" | "1" | "2")`. -/
def month : Node Action :=
  .choice [.sequence [.literal "0", .range 48 57],
    .capture (.text "late") (.sequence [.literal "1",
      .choice [.literal "0", .literal "1", .literal "2"]])]

def context : Context Action := ⟨.empty, nofun⟩

/-- A literal is missing at `pos`, and `found` is there in its place. -/
def missing (expected found : Text) (pos : Int) : ParseError Action :=
  .leaf (.mismatch expected.quoted (some found)) pos []

/-- What is wrong with the month `1`: no choice can go on, neither that of the first digit
nor, behind it, that of the second. -/
def short : ParseError Action :=
  .exhausted [missing "0" "1" 0,
    .exhausted [missing "0" "" 1, missing "1" "" 1, missing "2" "" 1] 1 [.text "late"]] 0 []

theorem attempt_short : attempt context 16 month "1" 0 = .ok (.failed short) := rfl

end Months

end Peg
