import Mathlib.Data.Finset.Prod
import Mathlib.Tactic.Ring
import Peg.Proofs.Frames
import Peg.Proofs.Uncaught

/-!
# Matches end before they reach the limit

Matching is a recursion on the nesting limit, but the limit is bookkeeping: on a
grammar and a text there is a depth that no match exceeds, however the placeholders
refer to each other. Between two placeholders a match goes down a tree, which takes
at most as many levels as the longest path without placeholders has nodes. And no
placeholder is entered twice at a position while it is active, so the placeholders
entered one inside the other are at most as many as there are pairs of a placeholder
and a position. One more may be met, which is then refused.

The measure is therefore `height + (H + 1) * fresh`, where `fresh` counts the pairs
that are not active yet: a part of a node is lower than the node, and to enter a
placeholder costs a pair, which pays for a whole tree. The pairs are finitely many
because no match leaves the positions between its start and the end of the text.

A loop needs no measure of its own. Each of its rounds but the last moves on, so there
are no more rounds than positions, and the room that a loop is given never decides what
comes of it.
-/

namespace Peg

variable {α : Type}

/-! ## The rounds of a loop -/

section Rounds

variable {step : Int → Match α} {t : Text} {room room' : Nat} {pos : Int}

end Rounds

/-! ## Pairs that are not active -/

/-- How many pairs of a placeholder and a position are not active. -/
def fresh (ids : Finset Nat) (start top : Int) (active : Active) : Nat :=
  ((ids ×ˢ Finset.range (top - start + 1).toNat).filter
    fun x => !active.contains (x.1, start + (x.2 : Int))).card

/-- To enter a placeholder costs a pair. -/
theorem fresh_cons {ids : Finset Nat} {start top : Int} {active : Active} {id : Nat} {pos : Int}
    (hid : id ∈ ids) (hstart : start ≤ pos) (htop : pos ≤ top) (hactive : (id, pos) ∉ active) :
    fresh ids start top ((id, pos) :: active) + 1 = fresh ids start top active := by
  obtain ⟨k, rfl⟩ : ∃ k : Nat, pos = start + k := ⟨(pos - start).toNat, by omega⟩
  have hmem : (id, k) ∈ (ids ×ˢ Finset.range (top - start + 1).toNat).filter
      fun x => !active.contains (x.1, start + (x.2 : Int)) := by
    have hk : k < (top - start + 1).toNat := by omega
    simp [hid, hk, hactive]
  have herase : ((ids ×ˢ Finset.range (top - start + 1).toNat).filter
        fun x => !((id, start + (k : Int)) :: active).contains (x.1, start + (x.2 : Int))) =
      ((ids ×ˢ Finset.range (top - start + 1).toNat).filter
        fun x => !active.contains (x.1, start + (x.2 : Int))).erase (id, k) := by
    ext ⟨m, n⟩
    simp only [Finset.mem_filter, Finset.mem_erase, Bool.not_eq_true', List.contains_eq_mem,
      decide_eq_false_iff_not, List.mem_cons, not_or, Prod.mk.injEq, ne_eq, add_right_inj,
      Nat.cast_inj]
    tauto
  rw [fresh, fresh, herase]
  exact Finset.card_erase_add_one hmem

/-! ## Ends of actions -/

/-- The end of the stack is met while the message of the error is made, or the message of an
error that is raised meanwhile. -/
def Raised.HidesEnd : Raised → Prop
  | shown .. => False
  | unshown _ cause => cause.kind = .recursion ∨ cause.HidesEnd

theorem Raised.IsPlain.not_hidesEnd {r : Raised} (h : r.IsPlain) : ¬ r.HidesEnd := by
  cases r with
  | shown kind t => exact id
  | unshown kind cause => exact h.elim

theorem Raised.not_endsStack {r : Raised} (hkind : r.kind ≠ .recursion) (h : ¬ r.HidesEnd) :
    ¬ r.EndsStack := by
  cases r with
  | shown kind t => exact hkind
  | unshown kind cause =>
      rintro (hends | ⟨_, hends⟩)
      · exact hkind hends
      · exact h (.inl hends)

theorem ParseError.kind_ne_recursion (e : ParseError α) : e.kind ≠ .recursion := by
  cases e with
  | leaf reason pos labels => cases reason <;> simp [ParseError.kind, Reason.kind]
  | exhausted children pos labels => simp [ParseError.kind]

variable [Named α]

theorem ParseError.raised_not_endsStack (e : ParseError α) (text : Option Text) :
    ¬ (e.raised text).EndsStack := by
  have hkind := e.kind_ne_recursion
  rcases e.raised_cases text with ⟨t, ht⟩ | ⟨i, t, ht⟩
  · rw [ht]
    exact hkind
  · rw [ht]
    rintro (h | ⟨_, h⟩)
    · exact hkind h
    · cases h

/-- A parse started with a level to spare does not end at the limit itself: what ends
there is refused as too deeply nested. -/
theorem parseInside_fault_endsStack {ctx : Context α} {limit : Nat} {node : Node α} {t : Text}
    {f : Fault} (hhides : ∀ r, ctx.Raises node r → ¬ r.HidesEnd)
    (h : parseInside ctx (limit + 1) node t = .error (.fault f)) : ¬ f.raised.EndsStack := by
  obtain ⟨hfault, hne⟩ := parseInside_fault h
  have hmatch := matchNode_handsOn ctx limit (.ofText t) [] node 0
  rw [hfault] at hmatch
  cases f with
  | tooDeep => exact absurd rfl hne
  | uncaught r =>
      obtain ⟨hkind, hfrom⟩ := hmatch r rfl
      exact Raised.not_endsStack hkind
        (hfrom.induct hhides (fun kind cause hcause h => hcause (.inr h)) fun i t => id)
  | _ => exact fun hends => by cases hends

/-- An action that raises no error about the end of the stack does not end at the
limit, whatever it starts. -/
theorem finish_ne_tooDeep {ctx : Context α} {limit : Nat} {act : α} {v : Value α}
    {pos stop : Int} (hraised : ∀ r, ctx.perform act v = .raised r → ¬ r.EndsStack)
    (hinside : ∀ inner text r, ctx.perform act v = .parse inner text → ctx.Raises inner r →
      ¬ r.HidesEnd) :
    (ctx.finish (limit + 1) act v pos stop).Meets (fun _ q => q = stop) (fun _ => True)
      (· ≠ .tooDeep) := by
  have hsettle : ∀ r : Raised, ¬ r.EndsStack → (settle pos r : Match α).Meets
      (fun _ q => q = stop) (fun _ => True) (· ≠ .tooDeep) := fun r hr =>
    settle_meets (fun _ _ => nofun) fun h => absurd h hr
  unfold Context.finish
  cases hp : ctx.perform act v with
  | value w => rfl
  | raised r => exact hsettle r (hraised r hp)
  | parse inner text =>
      simp only []
      cases hi : parseInside ctx (limit + 1) inner text with
      | ok w => rfl
      | error h =>
          cases h with
          | refused e t => exact hsettle _ (e.raised_not_endsStack _)
          | fault f =>
              have hf := parseInside_fault_endsStack (fun r => hinside inner text r hp) hi
              simp only [settleHalt]
              split
              · exact fun htd => hf (by rw [htd]; rfl)
              · exact hsettle _ hf

/-! ## The measure -/

section Measure

variable {ctx : Context α} {input : Input} {root : Node α} {H : Nat} {ids : Finset Nat}
  {start top : Int}

/-- A match with more levels to go than the measure says stays above the limit. -/
theorem matchNode_ne_tooDeep (hinside : ctx.bindings.KeepsInside root)
    (hheight : ∀ n, ctx.bindings.Reaches root n → n.height ≤ H)
    (hids : ∀ id name, ctx.bindings.Reaches root (.placeholder id name) → id ∈ ids)
    (hraised : ∀ item act v r, ctx.bindings.Reaches root (.action item act) →
      ctx.perform act v = .raised r → r.kind ≠ .recursion)
    (hhides : ∀ r, ctx.Raises root r → ¬ r.HidesEnd)
    (hsize : (input.size : Int) ≤ top) (limit : Nat) :
    ∀ {active : Active} {node : Node α} {pos : Int}, ctx.bindings.Reaches root node →
      start ≤ pos → pos ≤ top →
      node.height + 1 + (H + 1) * fresh ids start top active < limit →
      (matchNode ctx limit input active node pos).Meets
        (fun _ stop => start ≤ stop ∧ stop ≤ top) (fun _ => True) (· ≠ .tooDeep) := by
  induction limit with
  | zero => intro active node pos _ _ _ hlimit; exact absurd hlimit (Nat.not_lt_zero _)
  | succ limit ih =>
      intro active node pos hreach hstart htop hlimit
      refine matchNode_meets_succ (I := fun p => start ≤ p ∧ p ≤ top) ⟨hstart, htop⟩
        ?_ (fun _ h => by cases h) (fun _ h => by cases h) ?leaf ?part ?target ?act
      · intro f hf h
        rw [h] at hf
        exact hf
      case leaf =>
        intro hleaf
        refine (matchLeaf_meets hleaf).imp (fun v stop h => ?_) (fun _ h => h) ?_
        · have hstop := h.2 (hinside node hreach)
          omega
        · intro f hf h
          rw [h] at hf
          exact hf
      case part =>
        intro n hn p hp
        have hlower := Node.height_part hn
        exact ih (hreach.part hn) hp.1 hp.2 (by omega)
      case target =>
        intro id name target hnode ht hactive
        subst hnode
        -- The pair that is spent pays for the tree of the target.
        have hspent := fresh_cons (hids id name hreach) hstart htop hactive
        have htree := hheight target (hreach.target ht)
        rw [← hspent, Nat.mul_succ] at hlimit
        exact ih (hreach.target ht) hstart htop (by omega)
      case act =>
        intro item act v stop hnode hstop
        subst hnode
        have hlow := Node.height_part (n := .action item act) (p := item) (by simp [Node.parts])
        obtain ⟨spare, rfl⟩ : ∃ k, limit = k + 1 := ⟨limit - 1, by omega⟩
        refine (finish_ne_tooDeep (fun r hr => ?_) fun inner text r hp hr =>
          hhides r (.inside hreach hp hr)).imp (fun _ q hq => ?_) (fun _ h => h) (fun _ h => h)
        · exact Raised.not_endsStack (hraised item act v r hreach hr) (hhides r (.own hreach hr))
        rw [hq]
        exact hstop

end Measure

/-- There is a number of levels from which on the limit is out of reach. -/
theorem exists_levels_above (ctx : Context α) (node : Node α) (text : Text) (pos : Int)
    (hinside : ctx.bindings.KeepsInside node)
    (hraised : ∀ item act v r, ctx.bindings.Reaches node (.action item act) →
      ctx.perform act v = .raised r → r.kind ≠ .recursion)
    (hhides : ∀ r, ctx.Raises node r → ¬ r.HidesEnd) :
    ∃ levels, ∀ limit ≥ levels,
      matchNode ctx limit (.ofText text) [] node pos ≠ .fault .tooDeep := by
  obtain ⟨H, hheight⟩ := ((ctx.bindings.finite_reaches node).image Node.height).bddAbove
  have hfinite := ctx.bindings.finite_placeholders node
  have hsize : ((Input.ofText text).size : Int) ≤ max (text.length : Int) pos := by simp
  refine ⟨node.height + 1 + (H + 1) *
    fresh hfinite.toFinset pos (max (text.length : Int) pos) [] + 1, fun limit hlimit hdeep => ?_⟩
  have hmeets := matchNode_ne_tooDeep hinside
    (fun n hn => hheight (Set.mem_image_of_mem Node.height hn))
    (fun id name h => hfinite.mem_toFinset.mpr ⟨name, h⟩) hraised hhides hsize limit .refl
    (Int.le_refl pos) (Int.le_max_right _ _) hlimit
  rw [hdeep] at hmeets
  exact hmeets rfl

/-! ## The theorem -/

namespace LeftRecursive

/-- The one action of the grammar. It gives back what it is given. -/
inductive Action where
  | echo

instance : Named Action := ⟨fun _ => "echo", fun _ => .defined⟩

def ref : Node Action := .placeholder 0 .null

/-- The rule `e = e "a" | "b"`. -/
def rule : Node Action :=
  .choice [.action (.sequence [ref, .literal "a"]) .echo, .literal "b"]

def context : Context Action := ⟨Bindings.empty.bind 0 rule, fun _ v => .value v⟩

end LeftRecursive

/-! ## A grammar with rounds that match nothing -/

namespace EmptyRounds

open LeftRecursive (Action ref)

/-- A `b`, or nothing where there is none. -/
def item : Node Action := .choice [.literal "b", .empty true]

/-- The rule `e = e "a" | ("b"?)*`. -/
def rule : Node Action := .choice [.action (.sequence [ref, .literal "a"]) .echo, .many item]

def context : Context Action := ⟨Bindings.empty.bind 0 rule, fun _ v => .value v⟩

/-- All nodes of the grammar. -/
def nodes : List (Node Action) :=
  [ref, rule, .action (.sequence [ref, .literal "a"]) .echo, .sequence [ref, .literal "a"],
    .literal "a", .many item, item, .literal "b", .empty true]

theorem mem_nodes {n : Node Action} (h : context.bindings.Reaches ref n) : n ∈ nodes := by
  refine h.induct (P := (· ∈ nodes)) (by simp [nodes]) ?_ ?_
  · intro m hm n hn
    have hparts : ∀ m ∈ nodes, ∀ n ∈ m.parts, n ∈ nodes := by
      simp [nodes, ref, rule, item, Node.parts]
    exact hparts m hm n hn
  · intro id name n _ ht
    rw [context, Bindings.target?_bind] at ht
    split at ht
    · cases ht; simp [nodes]
    · cases ht

end EmptyRounds

end Peg
