import Peg.Proofs.ErrorTree

/-!
# The furthest error

`ParseError.furthest` goes down an error tree and keeps the best error it has seen. It
starts with the error itself, so it comes to a leaf only if every error that has children
is given up for one of them, and that takes a child that starts no earlier. In an ordered
tree each does, and there the result is what its name promises: of all leaves the one that
started furthest into the text, and the first of those where several did.

The loop over the children prefers a candidate that lies strictly further, and so the best
of the leaves seen so far is kept as one goes from left to right. That is a property of two
lists of leaves, one after the other, and does not depend on how deep a leaf is.
-/

namespace Peg

variable {α : Type}

namespace ParseError

theorem induct {motive : ParseError α → Prop}
    (leaf : ∀ reason pos labels, motive (.leaf reason pos labels))
    (exhausted : ∀ children pos labels, (∀ child ∈ children, motive child) →
      motive (.exhausted children pos labels)) (e : ParseError α) : motive e := by
  cases e with
  | leaf reason pos labels => exact leaf reason pos labels
  | exhausted children pos labels =>
      exact exhausted children pos labels fun child _ => induct leaf exhausted child
termination_by sizeOf e

/-! ## Leaves -/

/-- The errors of the tree that consist of no others, from left to right. -/
def leaves (e : ParseError α) : List (ParseError α) := e.tree.filter (·.children.isEmpty)

variable {e e' x y : ParseError α} {es l l' : List (ParseError α)} {pos : Int}
  {labels : List (Value α)}

theorem filter_treesOf :
    (treesOf es).filter (·.children.isEmpty) = es.flatMap leaves := by
  induction es with
  | nil => rfl
  | cons e es ih => rw [treesOf, List.filter_append, ih, List.flatMap_cons, leaves]

theorem leaves_exhausted (h : es ≠ []) : (exhausted es pos labels).leaves = es.flatMap leaves := by
  rw [leaves, tree, List.filter_cons_of_neg (by simpa [children] using h), filter_treesOf]

theorem children_eq_nil_of_mem_leaves (h : x ∈ e.leaves) : x.children = [] := by
  simpa using (List.mem_filter.mp h).2

/-! ## Ordered trees -/

theorem isOrdered_exhausted :
    (exhausted es pos labels).IsOrdered ↔ ∀ e ∈ es, pos ≤ e.pos ∧ e.IsOrdered := by
  constructor
  · intro h e he
    refine ⟨h _ (self_mem_tree _) e he, fun e' he' => ?_⟩
    exact h e' (mem_tree_exhausted.mpr (.inr ⟨e, he, he'⟩))
  · intro h e' he'
    rcases mem_tree_exhausted.mp he' with rfl | ⟨e, he, hmem⟩
    · exact fun child hchild => (h child hchild).1
    · exact (h e he).2 e' hmem

/-- In an ordered tree every error has a leaf that starts no earlier. -/
theorem IsOrdered.exists_le (h : e.IsOrdered) (he' : e' ∈ e.tree) :
    ∃ x ∈ e.leaves, e'.pos ≤ x.pos := by
  induction e using induct generalizing e' with
  | leaf reason pos labels =>
      exact ⟨_, List.mem_singleton_self _, (List.mem_singleton.mp he').symm ▸ Int.le_refl _⟩
  | exhausted es pos labels ih =>
      rw [isOrdered_exhausted] at h
      by_cases hes : es = []
      · subst hes
        exact ⟨_, List.mem_singleton_self _, (List.mem_singleton.mp he').symm ▸ Int.le_refl _⟩
      have hchild : ∀ e ∈ es, ∀ e' ∈ e.tree,
          ∃ x ∈ (exhausted es pos labels).leaves, e'.pos ≤ x.pos := by
        intro e he e' he'
        obtain ⟨x, hx, hle⟩ := ih e he (h e he).2 he'
        exact ⟨x, by rw [leaves_exhausted hes]; exact List.mem_flatMap.mpr ⟨e, he, hx⟩, hle⟩
      rcases mem_tree_exhausted.mp he' with rfl | ⟨e, he, hmem⟩
      · -- The error itself starts no later than any of its children.
        obtain ⟨e, he⟩ := List.exists_mem_of_ne_nil es hes
        obtain ⟨x, hx, hle⟩ := hchild e he e e.self_mem_tree
        exact ⟨x, hx, Int.le_trans (h e he).1 hle⟩
      · exact hchild e he e' hmem

/-! ## The best of a list -/

/-- The first of those errors of the list that started furthest into the text. -/
structure IsFirstFurthest (l : List (ParseError α)) (x : ParseError α) : Prop where
  pos_le : ∀ y ∈ l, y.pos ≤ x.pos
  first : ∃ before after, l = before ++ x :: after ∧ ∀ y ∈ before, y.pos < x.pos

namespace IsFirstFurthest

theorem singleton : IsFirstFurthest [x] x where
  pos_le := by simp
  first := ⟨[], [], rfl, by simp⟩

theorem mem (h : IsFirstFurthest l x) : x ∈ l := by
  obtain ⟨before, after, rfl, -⟩ := h.first
  simp

theorem append_of_le (h : IsFirstFurthest l x) (hle : ∀ y ∈ l', y.pos ≤ x.pos) :
    IsFirstFurthest (l ++ l') x where
  pos_le y hy := (List.mem_append.mp hy).elim (h.pos_le y) (hle y)
  first := by
    obtain ⟨before, after, rfl, hbefore⟩ := h.first
    exact ⟨before, after ++ l', by simp, hbefore⟩

theorem append_of_lt (h : IsFirstFurthest l' y) (hlt : ∀ x ∈ l, x.pos < y.pos) :
    IsFirstFurthest (l ++ l') y where
  pos_le x hx := (List.mem_append.mp hx).elim (fun hx => Int.le_of_lt (hlt x hx)) (h.pos_le x)
  first := by
    obtain ⟨before, after, rfl, hbefore⟩ := h.first
    refine ⟨l ++ before, after, by simp, fun x hx => ?_⟩
    exact (List.mem_append.mp hx).elim (hlt x) (hbefore x)

end IsFirstFurthest

/-! ## The search -/

/-- What the search below an error at `pos` has found in the leaves it has seen. -/
def Found (seen : List (ParseError α)) : Option (ParseError α) → Prop
  | none => seen = []
  | some best => IsFirstFurthest seen best

/-- A candidate that is the best of further leaves, none of which starts before `pos`. -/
theorem Found.further {best : Option (ParseError α)} (h : Found l best)
    (hy : IsFirstFurthest l' y) (hpos : pos ≤ y.pos) : Found (l ++ l') (further pos best y) := by
  cases best with
  | none =>
      obtain rfl : l = [] := h
      rw [ParseError.further, if_pos hpos]
      exact hy
  | some b =>
      have hb : IsFirstFurthest l b := h
      by_cases hlt : b.pos < y.pos
      · rw [ParseError.further, if_pos hlt]
        exact hy.append_of_lt fun x hx => Int.lt_of_le_of_lt (hb.pos_le x hx) hlt
      · rw [ParseError.further, if_neg hlt]
        exact hb.append_of_le fun x hx => Int.le_trans (hy.pos_le x hx) (Int.not_lt.mp hlt)

theorem Found.furthestAmong {best : Option (ParseError α)} (h : Found l best)
    (hes : ∀ e ∈ es, pos ≤ e.furthest.pos ∧ IsFirstFurthest e.leaves e.furthest) :
    Found (l ++ es.flatMap leaves) (furthestAmong pos best es) := by
  induction es generalizing l best with
  | nil => simpa [ParseError.furthestAmong] using h
  | cons e es ih =>
      obtain ⟨hpos, hfirst⟩ := hes e List.mem_cons_self
      rw [ParseError.furthestAmong, List.flatMap_cons, ← List.append_assoc]
      exact ih (h.further hfirst hpos) fun e' he' => hes e' (List.mem_cons_of_mem _ he')

/-- In an ordered tree the search finds the best of the leaves. -/
theorem IsOrdered.isFirstFurthest (h : e.IsOrdered) : IsFirstFurthest e.leaves e.furthest := by
  induction e using induct with
  | leaf reason pos labels => exact .singleton
  | exhausted es pos labels ih =>
      rw [isOrdered_exhausted] at h
      by_cases hes : es = []
      · subst hes
        exact .singleton
      have hfound : Found ([] ++ es.flatMap leaves) (furthestAmong pos none es) := by
        refine Found.furthestAmong (l := []) rfl fun e he => ?_
        have hfirst := ih e he (h e he).2
        obtain ⟨x, hx, hle⟩ := (h e he).2.exists_le e.self_mem_tree
        have hchild := (h e he).1
        have hbest := hfirst.pos_le x hx
        exact ⟨by omega, hfirst⟩
      rw [leaves_exhausted hes, furthest, furthestBelow?]
      cases hbest : furthestAmong pos none es with
      | some best =>
          rw [hbest] at hfound
          exact hfound
      | none =>
          -- Every child has a leaf, so something was found.
          rw [hbest] at hfound
          obtain ⟨e, he⟩ := List.exists_mem_of_ne_nil es hes
          have hnone : es.flatMap leaves = [] := hfound
          have hmem := (ih e he (h e he).2).mem
          rw [List.flatMap_eq_nil_iff.mp hnone e he] at hmem
          cases hmem

/-! ## The result -/

/-- `found` is a leaf of the tree of `e`, no error of the tree starts further into the text,
and all leaves to the left of it start before it. -/
structure IsFurthest (e found : ParseError α) : Prop where
  children_eq : found.children = []
  pos_le : ∀ e' ∈ e.tree, e'.pos ≤ found.pos
  first : ∃ before after, e.leaves = before ++ found :: after ∧ ∀ y ∈ before, y.pos < found.pos

theorem IsOrdered.isFurthest (h : e.IsOrdered) : e.IsFurthest e.furthest where
  children_eq := children_eq_nil_of_mem_leaves h.isFirstFurthest.mem
  pos_le e' he' := by
    obtain ⟨x, hx, hle⟩ := h.exists_le he'
    exact Int.le_trans hle (h.isFirstFurthest.pos_le x hx)
  first := h.isFirstFurthest.first

end ParseError

variable [Named α]

/-- The furthest error of an ordered tree is the first of the leaves that started furthest
into the text, and the tree of every failed attempt is ordered. -/
theorem furthest_isFurthest :
    (∀ e : ParseError α, e.IsOrdered → e.IsFurthest e.furthest) ∧
      ∀ (ctx : Context α) (limit : Nat) (node : Node α) (text : Text) (pos : Int)
        (e : ParseError α), attempt ctx limit node text pos = .ok (.failed e) →
        e.IsFurthest e.furthest :=
  ⟨fun _ h => h.isFurthest, fun _ _ _ _ _ _ h =>
    (Frame.isOrdered_of_failure (Frame.outcome_of_failed h)).isFurthest⟩

namespace Months

/-- A choice without alternatives next to what is wrong with the month `1`. -/
def beside : ParseError Action := .exhausted [short, .exhausted [] 1 []] 0 []

/-- All literals for the second digit are missing at one position, and the first of them is
reported, though it lies deeper in the tree than the other error at that position. -/
theorem furthest_isFurthest_short :
    attempt context 16 month "1" 0 = .ok (.failed short) ∧
      short.IsFurthest (missing "0" "" 1) ∧ beside.IsOrdered ∧
      beside.IsFurthest (missing "0" "" 1) := by
  have hshort : short.IsFurthest short.furthest :=
    furthest_isFurthest.2 context 16 month "1" 0 short attempt_short
  have hordered : beside.IsOrdered := by
    refine ParseError.isOrdered_exhausted.mpr fun e he => ?_
    rcases List.mem_cons.mp he with rfl | he
    · exact ⟨by decide, Frame.isOrdered_of_failure (Frame.outcome_of_failed attempt_short)⟩
    · obtain rfl := List.mem_singleton.mp he
      exact ⟨by decide, ParseError.isOrdered_exhausted.mpr fun _ h => by cases h⟩
  exact ⟨attempt_short, hshort, hordered, furthest_isFurthest.1 beside hordered⟩

end Months

end Peg
