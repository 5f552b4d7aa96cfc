import Peg.Value

/-!
# Bindings of placeholders

A placeholder stands for a node that is named before it exists. What it stands for
is kept apart from the grammar, in the bindings: a finite map from the numbers of
placeholders to their targets. Nodes therefore stay finite trees even when the
grammar they make up is recursive.
-/

namespace Peg

variable {α : Type}

/-- The targets of the placeholders that have one. -/
structure Bindings (α : Type) where
  entries : List (Nat × Node α)

namespace Bindings

def empty : Bindings α := ⟨[]⟩

/-- The target of a placeholder. -/
def target? (b : Bindings α) (id : Nat) : Option (Node α) := b.entries.lookup id

def isBound (b : Bindings α) (id : Nat) : Bool := (b.target? id).isSome

/-- The bindings with one more target. -/
def bind (b : Bindings α) (id : Nat) (target : Node α) : Bindings α :=
  ⟨(id, target) :: b.entries⟩

theorem target?_empty (id : Nat) : (empty : Bindings α).target? id = none := rfl

theorem target?_bind (b : Bindings α) (id other : Nat) (target : Node α) :
    (b.bind id target).target? other = if other = id then some target else b.target? other := by
  by_cases h : other = id
  · simp [target?, bind, h]
  · simp [target?, bind, List.lookup_cons, beq_false_of_ne h, h]

end Bindings

end Peg
