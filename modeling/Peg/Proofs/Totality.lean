import Peg.Proofs.ErrorTree
import Peg.Proofs.Exhaustion
import Peg.Proofs.Guarded

/-!
# Grammars that cannot go wrong

On a regular grammar in which every reading has an answer, nothing but the depth can keep
an attempt from one: it is refused as nested too deeply, or it matches or fails.

An action is only ever given what its item matched. Where each action gives a value on
every such result, the grammar is total: no action raises an error in any run, and so no
failure has an error of an action anywhere in its tree. That holds of the alternatives
that are given up later just as of the others, since a match of them is a match like any
other. For a grammar that is written out totality is checked action by action, tree by
tree, with `Node.EveryAction`.
-/

namespace Peg

variable {α : Type}

/-! ## The actions of a grammar -/

mutual

/-- Every action in the tree, and the item it belongs to, are as `P` says. -/
@[simp]
def Node.EveryAction (P : Node α → α → Prop) : Node α → Prop
  | .sequence items => Node.EveryActionOf P items
  | .choice alternatives => Node.EveryActionOf P alternatives
  | .many item | .capture _ item => item.EveryAction P
  | .exclusion item forbidden => item.EveryAction P ∧ forbidden.EveryAction P
  | .action item act => P item act ∧ item.EveryAction P
  | _ => True

@[simp]
def Node.EveryActionOf (P : Node α → α → Prop) : List (Node α) → Prop
  | [] => True
  | n :: ns => n.EveryAction P ∧ Node.EveryActionOf P ns

end

section EveryAction

variable {P : Node α → α → Prop} {b : Bindings α} {node item : Node α} {act : α}

theorem Node.everyActionOf_iff {ns : List (Node α)} :
    Node.EveryActionOf P ns ↔ ∀ n ∈ ns, n.EveryAction P := by
  induction ns with
  | nil => simp [Node.EveryActionOf]
  | cons n ns ih => simp [Node.EveryActionOf, ih]

/-! ### What the builders add -/

@[simp] theorem Node.everyAction_charRange (low high : CodePoint) :
    (Node.charRange low high).EveryAction P ↔ True := Iff.rfl

@[simp] theorem Node.everyAction_literals (ts : List Text) :
    (Node.literals ts).EveryAction P ↔ True := by
  simp [Node.literals, Node.everyActionOf_iff]

@[simp] theorem Node.everyAction_optional (n : Node α) :
    n.optional.EveryAction P ↔ n.EveryAction P := by
  simp [Node.optional, Node.nothing]

@[simp] theorem Node.everyAction_oneOrMore (n : Node α) :
    n.oneOrMore.EveryAction P ↔ n.EveryAction P := by
  simp [Node.oneOrMore]

@[simp] theorem Node.everyAction_alternating (n separator : Node α) :
    (n.alternating separator).EveryAction P ↔ n.EveryAction P ∧ separator.EveryAction P := by
  simp [Node.alternating]
  tauto

theorem Node.everyAction_exactly {n : Node α} (h : n.EveryAction P) (count : Nat) :
    (n.exactly count).EveryAction P := by
  rw [Node.exactly, Node.EveryAction, Node.everyActionOf_iff]
  intro m hm
  rw [(List.mem_replicate.mp hm).2]
  exact h

theorem Node.EveryAction.part {n : Node α} (h : node.EveryAction P) (hn : n ∈ node.parts) :
    n.EveryAction P := by
  cases node with
  | sequence items | choice items =>
      rw [Node.EveryAction, Node.everyActionOf_iff] at h
      exact h n hn
  | many item | capture _ item =>
      obtain rfl := List.mem_singleton.mp hn
      rwa [Node.EveryAction] at h
  | action item act =>
      obtain rfl := List.mem_singleton.mp hn
      rw [Node.EveryAction] at h
      exact h.2
  | exclusion item forbidden =>
      rw [Node.EveryAction] at h
      rcases List.mem_cons.mp hn with rfl | hn
      · exact h.1
      · obtain rfl := List.mem_singleton.mp hn
        exact h.2
  | _ => cases hn

/-- What holds of the actions in all trees of a grammar holds of those that are reached. -/
theorem everyAction_of_reaches (hnode : node.EveryAction P)
    (htargets : ∀ e ∈ b.entries, e.2.EveryAction P)
    (h : b.Reaches node (.action item act)) : P item act := by
  have hreached : (Node.action item act).EveryAction P := by
    refine h.induct hnode (fun m hm n hn => hm.part hn) fun id name n _ ht => ?_
    exact htargets _ (Bindings.mem_entries_of_target? ht)
  rw [Node.EveryAction] at hreached
  exact hreached.1

end EveryAction

/-! ## What actions are given -/

variable [Named α]

/-- Every action that can be reached gives a value on whatever its item matches. -/
def Context.IsTotal (ctx : Context α) (node : Node α) : Prop :=
  ∀ item act, ctx.bindings.Reaches node (.action item act) →
    ∀ s v rest, ctx.Matches item s v rest → ∃ w, ctx.perform act v = .value w

section Runs

variable {ctx : Context α} {limit levels : Nat} {node : Node α} {text : Text} {pos : Nat}
  {g : Frame α} {act : α} {v : Value α} {stop : Int}

/-- An action is performed on a result that its item has on some end of the text. -/
theorem matches_of_performs (hnode : ctx.IsRegular node) (hpos : pos ≤ text.length)
    (hvisit : (Frame.top limit node text pos).Visits ctx g)
    (hact : g.Performs ctx levels act v stop) :
    ∃ item s rest, ctx.bindings.Reaches node (.action item act) ∧ ctx.Matches item s v rest := by
  have hwithin := hvisit.pos_le hnode.keepsInside
  have hreach := hvisit.reaches
  have hinput := hvisit.input_eq
  cases hact with
  | @intro _ input active item _ p _ _ hitem =>
      obtain rfl : input = .ofText text := hinput
      obtain ⟨hle, hmax⟩ : (pos : Int) ≤ p ∧ p ≤ max (pos : Int) (Input.ofText text).size := hwithin
      rw [Input.size_ofText] at hmax
      obtain ⟨q, rfl⟩ : ∃ q : Nat, p = q := ⟨p.toNat, by omega⟩
      have hregular := hnode.of_reaches (hreach.part (n := item) (by simp [Node.parts]))
      have hfollows := matchNode_follows ctx text levels active item q (by omega) hregular
      rw [hitem] at hfollows
      refine ⟨item, text.drop q, ?_⟩
      rcases hfollows with hagrees | ⟨⟨t, p', hfault⟩, -⟩
      · obtain ⟨_, -, -, hr⟩ := hagrees.reading_of_success
        exact ⟨_, hreach, .of_read hr⟩
      · cases hfault

theorem returns_of_isTotal (hnode : ctx.IsRegular node) (htotal : ctx.IsTotal node)
    (hpos : pos ≤ text.length) (hvisit : (Frame.top limit node text pos).Visits ctx g)
    (hact : g.Performs ctx levels act v stop) : ∃ w, ctx.perform act v = .value w := by
  obtain ⟨item, s, rest, hreach, hmatch⟩ := matches_of_performs hnode hpos hvisit hact
  exact htotal item act hreach s v rest hmatch

/-- A failure on a total grammar has no error of an action in it. -/
theorem no_transform_of_isTotal (hnode : ctx.IsRegular node) (htotal : ctx.IsTotal node)
    (hpos : pos ≤ text.length) {e : ParseError α}
    (h : attempt ctx limit node text pos = .ok (.failed e)) :
    ∀ e' ∈ e.tree, e'.kind ≠ .transform := by
  intro e' he' hkind
  obtain ⟨g, levels, act, v, stop, hvisit, hact, hraises⟩ :=
    Frame.exists_performs_of_transform (Frame.outcome_of_failed h) he' hkind
  obtain ⟨w, hw⟩ := returns_of_isTotal hnode htotal hpos hvisit hact
  refine hraises ?_
  rw [Context.Returns, hw]
  trivial

/-- Where a reading has an answer, the depth alone can keep an attempt from one. -/
theorem attempt_answers (hnode : ctx.IsRegular node) (hsettles : ctx.Settles node (text.drop pos))
    (hpos : pos ≤ text.length) (limit : Nat) :
    (∃ a, attempt ctx limit node text pos = .ok a) ∨
      attempt ctx limit node text pos = nestedTooDeep text pos := by
  have hagrees := matchNode_agrees limit hnode hpos
  rw [attempt]
  cases ho : matchNode ctx limit (.ofText text) [] node pos with
  | success v stop => exact .inl ⟨_, rfl⟩
  | failure e => exact .inl ⟨_, rfl⟩
  | fault f =>
      right
      rw [ho] at hagrees
      rcases hagrees with hagrees | ⟨⟨t, q, hleft⟩, -⟩
      · obtain ⟨-, rfl⟩ := hagrees.reading_of_fault
        rfl
      · obtain ⟨levels, r, hr, hread⟩ := hsettles
        have hstuck := readNode_stuck hpos hnode (ho.trans hleft) levels
        rw [hread levels (Nat.le_refl _)] at hstuck
        exact absurd hstuck hr

end Runs

end Peg
