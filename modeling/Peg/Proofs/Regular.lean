import Peg.Proofs.Limit
import Peg.Proofs.Position

/-!
# Regular grammars

A grammar is regular at a node when whatever a match can come to from there is such as
the checked builders make it, every placeholder has its target, and every action is a
function of the result that it is given: it makes a value of it, or raises an error
that can be shown and is neither about the grammar nor about the end of the stack. An
action that starts a parse of its own is not such a function, because what it gives
depends on how many levels are left.

Regularity is a property of the graph, so it goes from a node to all that the node
leads to. For a grammar that is written out it is checked tree by tree: `isReady`
computes whether a tree has everything that `isRegular_of_isReady` asks for.
-/

namespace Peg

variable {α : Type}

/-- What a function of the raw result can give: a value, or a harmless error. -/
def ActionResult.IsPlain : ActionResult α → Prop
  | .value _ => True
  | .raised r => r.IsPlain
  | .parse .. => False

variable [Named α]

/-- A grammar of the builders, resolved, whose actions are functions. -/
structure Context.IsRegular (ctx : Context α) (node : Node α) : Prop where
  built : ∀ n, ctx.bindings.Reaches node n → n.IsBuilt
  resolved : ∀ id name, ctx.bindings.Reaches node (.placeholder id name) →
    ctx.bindings.isBound id = true
  plain : ∀ item act, ctx.bindings.Reaches node (.action item act) →
    ∀ v, (ctx.perform act v).IsPlain

namespace Context.IsRegular

variable {ctx : Context α} {node n : Node α}

theorem of_reaches (h : ctx.IsRegular node) (hn : ctx.bindings.Reaches node n) :
    ctx.IsRegular n where
  built m hm := h.built m (hn.trans hm)
  resolved id name hm := h.resolved id name (hn.trans hm)
  plain item act hm := h.plain item act (hn.trans hm)

theorem part (h : ctx.IsRegular node) (hn : n ∈ node.parts) : ctx.IsRegular n :=
  h.of_reaches (Bindings.Reaches.refl.part hn)

theorem target {id : Nat} {name : Value α} (h : ctx.IsRegular (.placeholder id name))
    (hn : ctx.bindings.target? id = some n) : ctx.IsRegular n :=
  h.of_reaches (Bindings.Reaches.refl.target hn)

theorem exists_target {id : Nat} {name : Value α} (h : ctx.IsRegular (.placeholder id name)) :
    ∃ target, ctx.bindings.target? id = some target :=
  Option.isSome_iff_exists.mp (h.resolved id name .refl)

theorem isPlain {item : Node α} {act : α} {v : Value α} {r : Raised} (h : ctx.IsRegular node)
    (hact : ctx.bindings.Reaches node (.action item act)) (hr : ctx.perform act v = .raised r) :
    r.IsPlain := by
  have hplain := h.plain item act hact v
  rw [hr] at hplain
  exact hplain

theorem isQuiet (h : ctx.IsRegular node) : ctx.IsQuiet node := by
  intro item act hreach v inner t hp
  have hplain := h.plain item act hreach v
  rw [hp] at hplain
  exact hplain

theorem keepsInside (h : ctx.IsRegular node) : ctx.bindings.KeepsInside node := by
  intro n hn htuple
  have hbuilt := h.built n hn
  cases n <;> first | exact htuple | exact hbuilt

theorem describe (h : ctx.IsRegular node) (isBound : Nat → Bool) (depth : Int) :
    ∃ t, node.describe isBound depth = .ok t := by
  refine describe_ok isBound node depth fun m hm => h.built m ?_
  exact Relation.ReflTransGen.mono (fun _ _ hpart => Bindings.Leads.part hpart) _ _ hm

end Context.IsRegular

/-! ## Grammars that are written out -/

mutual

/-- Whether every node of a tree is as the checked builders make it, and every
placeholder in the tree has its target. -/
def Node.isReady (b : Bindings α) : Node α → Bool
  | .literal _ | .empty _ => true
  | .range low high => decide (0 ≤ low ∧ low ≤ high ∧ high < 0x110000)
  | .sequence items => Node.isReadyAll b items
  | .choice alternatives => Node.isReadyAll b alternatives
  | .many item | .capture (.text _) item | .action item _ => item.isReady b
  | .exclusion item forbidden => item.isReady b && forbidden.isReady b
  | .placeholder id .null | .placeholder id (.text _) => b.isBound id
  | .capture .. | .placeholder .. | .bare | .stray _ | .looseLiteral _ | .looseRange .. => false

def Node.isReadyAll (b : Bindings α) : List (Node α) → Bool
  | [] => true
  | n :: ns => n.isReady b && Node.isReadyAll b ns

end

section Ready

variable {b : Bindings α} {n : Node α}

omit [Named α] in
theorem Node.isReady_of_mem {ns : List (Node α)} (h : Node.isReadyAll b ns = true) (hn : n ∈ ns) :
    n.isReady b = true := by
  induction ns with
  | nil => cases hn
  | cons m ms ih =>
      rw [Node.isReadyAll, Bool.and_eq_true] at h
      rcases List.mem_cons.mp hn with rfl | hn
      · exact h.1
      · exact ih h.2 hn

omit [Named α] in
theorem Node.isReady_part {p : Node α} (h : n.isReady b = true) (hp : p ∈ n.parts) :
    p.isReady b = true := by
  cases n with
  | sequence items | choice alternatives =>
      rw [Node.isReady] at h
      exact Node.isReady_of_mem h hp
  | many item | action item act =>
      obtain rfl := List.mem_singleton.mp hp
      simpa [Node.isReady] using h
  | capture label item =>
      obtain rfl := List.mem_singleton.mp hp
      cases label <;> simp_all [Node.isReady]
  | exclusion item forbidden =>
      rw [Node.isReady, Bool.and_eq_true] at h
      rcases List.mem_cons.mp hp with rfl | hp
      · exact h.1
      · obtain rfl := List.mem_singleton.mp hp
        exact h.2
  | _ => cases hp

theorem Node.isBuilt_of_isReady (h : n.isReady b = true) : n.IsBuilt := by
  cases n with
  | range low high =>
      rw [Node.isReady, decide_eq_true_eq] at h
      exact h
  | placeholder id name =>
      refine isBuilt_placeholder id ?_
      cases name <;> simp [Node.isReady] at h ⊢
  | capture label item =>
      cases label <;> simp_all [Node.isReady, Node.IsBuilt]
  | bare | stray _ | looseLiteral _ | looseRange _ _ => simp [Node.isReady] at h
  | _ => trivial

omit [Named α] in
theorem Node.isBound_of_isReady {id : Nat} {name : Value α}
    (h : (Node.placeholder id name).isReady b = true) : b.isBound id = true := by
  cases name <;> simp_all [Node.isReady]

end Ready

/-- A grammar that is written out is regular when its trees are ready. -/
theorem Context.isRegular_of_isReady {ctx : Context α} {node : Node α}
    (hnode : node.isReady ctx.bindings = true)
    (htarget : ∀ e ∈ ctx.bindings.entries, e.2.isReady ctx.bindings = true)
    (hplain : ∀ act v, (ctx.perform act v).IsPlain) : ctx.IsRegular node := by
  have hready : ∀ n, ctx.bindings.Reaches node n → n.isReady ctx.bindings = true := by
    intro n hn
    refine hn.induct (P := fun n => n.isReady ctx.bindings = true) hnode ?_ ?_
    · intro m hm p hp
      exact Node.isReady_part hm hp
    · intro id name target _ ht
      exact htarget _ (Bindings.mem_entries_of_target? ht)
  exact {
    built := fun n hn => Node.isBuilt_of_isReady (hready n hn)
    resolved := fun id name hn => Node.isBound_of_isReady (hready _ hn)
    plain := fun _ act _ v => hplain act v }

end Peg
