import Mathlib.Data.Set.Card
import Mathlib.Data.Set.Finite.Lattice
import Mathlib.Logic.Relation
import Peg.Bindings

/-!
# The graph of a grammar

A node is a finite tree, and a grammar is a finite graph: the bindings lead from a
placeholder back into some tree. `Bindings.Leads` is one step in that graph, from a
node to one of its parts or from a placeholder to its target, and `Bindings.Reaches`
is any number of them.

Two numbers bound what a match can do before it has to move on. The graph has
finitely many placeholders, whatever the bindings are. And a path that avoids the
placeholders goes down a tree, so it is no longer than the tree is high.
-/

namespace Peg

variable {α : Type}

namespace Node

/-- The nodes that a node is directly made of. The target of a placeholder is none of
them. -/
def parts : Node α → List (Node α)
  | sequence items => items
  | choice alternatives => alternatives
  | many item => [item]
  | exclusion item forbidden => [item, forbidden]
  | capture _ item => [item]
  | action item _ => [item]
  | _ => []

def IsPlaceholder : Node α → Prop
  | placeholder .. => True
  | _ => False

theorem sizeOf_part {n p : Node α} (h : p ∈ n.parts) : sizeOf p < sizeOf n := by
  cases n with
  | sequence items =>
      have hlt : sizeOf p < sizeOf items := List.sizeOf_lt_of_mem h
      simp only [sequence.sizeOf_spec]
      omega
  | choice alternatives =>
      have hlt : sizeOf p < sizeOf alternatives := List.sizeOf_lt_of_mem h
      simp only [choice.sizeOf_spec]
      omega
  | many item =>
      obtain rfl : p = item := by simpa [parts] using h
      simp
  | exclusion item forbidden =>
      rcases (by simpa [parts] using h : p = item ∨ p = forbidden) with rfl | rfl
      · simp only [exclusion.sizeOf_spec]; omega
      · simp only [exclusion.sizeOf_spec]; omega
  | capture label item =>
      obtain rfl : p = item := by simpa [parts] using h
      simp
  | action item act =>
      obtain rfl : p = item := by simpa [parts] using h
      simp only [action.sizeOf_spec]
      omega
  | bare | literal _ | range _ _ | placeholder _ _ | empty _ | stray _ | looseLiteral _
  | looseRange _ _ => simp [parts] at h

/-- The nodes of the tree that a node is. -/
def Contains : Node α → Node α → Prop := Relation.ReflTransGen fun m n => n ∈ m.parts

/-- A tree has finitely many nodes. -/
theorem finite_contains (n : Node α) : {m | n.Contains m}.Finite := by
  have hsub : {m | n.Contains m} ⊆ {n} ∪ ⋃ p ∈ {p | p ∈ n.parts}, {m | p.Contains m} := by
    intro m hm
    rcases Relation.ReflTransGen.cases_head hm with rfl | ⟨p, hp, hpm⟩
    · exact .inl rfl
    · exact .inr (Set.mem_biUnion hp hpm)
  refine Set.Finite.subset (Set.Finite.union (Set.finite_singleton n) ?_) hsub
  exact Set.Finite.biUnion n.parts.finite_toSet fun p hp => finite_contains p
termination_by sizeOf n
decreasing_by exact sizeOf_part hp

end Node

namespace Bindings

/-- A step in the graph of a grammar. -/
inductive Leads (b : Bindings α) : Node α → Node α → Prop
  | part {m n : Node α} (h : n ∈ m.parts) : Leads b m n
  | target {id : Nat} {name : Value α} {n : Node α} (h : b.target? id = some n) :
      Leads b (.placeholder id name) n

/-- The nodes that a match of a node may come to. -/
def Reaches (b : Bindings α) : Node α → Node α → Prop := Relation.ReflTransGen b.Leads

variable {b : Bindings α} {node m n : Node α}

theorem Reaches.refl : b.Reaches node node := Relation.ReflTransGen.refl

theorem Reaches.part (h : b.Reaches node m) (hn : n ∈ m.parts) : b.Reaches node n :=
  Relation.ReflTransGen.tail h (.part hn)

theorem Reaches.target {id : Nat} {name : Value α} (h : b.Reaches node (.placeholder id name))
    (hn : b.target? id = some n) : b.Reaches node n :=
  Relation.ReflTransGen.tail h (.target hn)

/-- What holds of a node, and goes from each node to its parts and from each placeholder
to its target, holds of whatever is reached. -/
theorem Reaches.induct {P : Node α → Prop} (hnode : P node)
    (hpart : ∀ m, P m → ∀ n ∈ m.parts, P n)
    (htarget : ∀ id name n, P (.placeholder id name) → b.target? id = some n → P n)
    (h : b.Reaches node n) : P n := by
  induction h with
  | refl => exact hnode
  | tail _ hstep ih =>
      cases hstep with
      | part hn => exact hpart _ ih _ hn
      | target ht => exact htarget _ _ _ ih ht

theorem mem_entries_of_target? {id : Nat} (h : b.target? id = some n) :
    (id, n) ∈ b.entries := by
  obtain ⟨before, after, hentries, -⟩ := List.lookup_eq_some_iff.mp h
  simp [hentries]

/-- Whatever is reached lies in the tree that a match starts at, or in the tree of a
target. -/
theorem Reaches.contains (h : b.Reaches node n) :
    node.Contains n ∨ ∃ e ∈ b.entries, e.2.Contains n := by
  induction h with
  | refl => exact .inl .refl
  | tail _ hstep ih =>
      cases hstep with
      | part hpart =>
          rcases ih with ih | ⟨e, he, ih⟩
          · exact .inl (ih.tail hpart)
          · exact .inr ⟨e, he, ih.tail hpart⟩
      | target htarget => exact .inr ⟨_, mem_entries_of_target? htarget, .refl⟩

theorem finite_reaches (b : Bindings α) (node : Node α) : {n | b.Reaches node n}.Finite := by
  refine Set.Finite.subset (Set.Finite.union node.finite_contains
    (Set.Finite.biUnion b.entries.finite_toSet fun e _ => e.2.finite_contains)) fun n hn => ?_
  rcases Reaches.contains hn with h | ⟨e, he, h⟩
  · exact .inl h
  · exact .inr (Set.mem_biUnion he h)

/-- The placeholders that a match of a node may come to, by number. -/
def placeholders (b : Bindings α) (node : Node α) : Set Nat :=
  {id | ∃ name, b.Reaches node (.placeholder id name)}

theorem finite_placeholders (b : Bindings α) (node : Node α) :
    (b.placeholders node).Finite := by
  refine Set.Finite.subset ((b.finite_reaches node).image fun
    | .placeholder id _ => id
    | _ => 0) ?_
  rintro id ⟨name, h⟩
  exact ⟨.placeholder id name, h, rfl⟩

end Bindings

/-! ## The height of a tree -/

mutual

/-- How many nodes there are on a longest way down a tree, placeholders not counted. -/
@[simp]
def Node.height : Node α → Nat
  | .placeholder .. => 0
  | .sequence items => Node.heightAll items + 1
  | .choice alternatives => Node.heightAll alternatives + 1
  | .many item => item.height + 1
  | .exclusion item forbidden => max item.height forbidden.height + 1
  | .capture _ item => item.height + 1
  | .action item _ => item.height + 1
  | _ => 1

@[simp]
def Node.heightAll : List (Node α) → Nat
  | [] => 0
  | n :: ns => max n.height (Node.heightAll ns)

end

namespace Node

theorem height_le_heightAll {n : Node α} {ns : List (Node α)} (h : n ∈ ns) :
    n.height ≤ heightAll ns := by
  induction ns with
  | nil => cases h
  | cons m ms ih =>
      rw [heightAll]
      rcases List.mem_cons.mp h with rfl | hmem
      · exact Nat.le_max_left _ _
      · exact Nat.le_trans (ih hmem) (Nat.le_max_right _ _)

theorem height_part {n p : Node α} (h : p ∈ n.parts) : p.height + 1 ≤ n.height := by
  cases n with
  | sequence items => rw [height]; exact Nat.succ_le_succ (height_le_heightAll h)
  | choice alternatives => rw [height]; exact Nat.succ_le_succ (height_le_heightAll h)
  | exclusion item forbidden =>
      rw [height]
      rcases (by simpa [parts] using h : p = item ∨ p = forbidden) with rfl | rfl
      · exact Nat.succ_le_succ (Nat.le_max_left _ _)
      · exact Nat.succ_le_succ (Nat.le_max_right _ _)
  | many item | capture _ item | action item _ =>
      obtain rfl : p = item := by simpa [parts] using h
      rw [height]
  | bare | literal _ | range _ _ | placeholder _ _ | empty _ | stray _ | looseLiteral _
  | looseRange _ _ => simp [parts] at h

end Node

/-- A path in the graph of a grammar that contains no placeholder. -/
def Bindings.IsPath (b : Bindings α) (path : List (Node α)) : Prop :=
  path.IsChain b.Leads ∧ ∀ n ∈ path, ¬ n.IsPlaceholder

theorem Bindings.IsPath.length_le {b : Bindings α} {n : Node α} {rest : List (Node α)}
    (h : b.IsPath (n :: rest)) : (n :: rest).length ≤ n.height := by
  induction rest generalizing n with
  | nil =>
      have hn := h.2 n (by simp)
      cases n <;> first | exact absurd trivial hn | (rw [Node.height] <;> simp)
  | cons m rest ih =>
      have hm := ih ⟨(List.isChain_cons_cons.mp h.1).2, fun k hk => h.2 k (by simp_all)⟩
      have hn := h.2 n (by simp)
      cases (List.isChain_cons_cons.mp h.1).1 with
      | part hpart =>
          have hlower := Node.height_part hpart
          simp only [List.length_cons] at hm ⊢
          omega
      | target ht => exact absurd trivial hn

end Peg
