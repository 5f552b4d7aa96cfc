import Peg.Proofs.LateBinding
import Peg.Proofs.Uncaught

/-!
# What can go wrong is known

Everything that is wrong with the shape of a grammar comes to light when it is built. The
operations of a program that uses nothing but the builders have the answers and errors
that `Workshop.Expects` lists, whatever the program gives the builders and whatever its
actions do. A builder refuses what makes no node; a resolver refuses that as well, and a
second target; and a match that has no answer nests too deeply, or what is wrong is the
grammar as such.

A match never has one of the faults that `Fault.IsLocal` sums up, because it only comes to
sound nodes, at positions from zero on. An action can end a match with an error about the
grammar, which it raised, or which ended a parse that it started; `Context.Raises` follows
such an error to the action that raised it. Nothing else that an action raises leaves a match
as it is, as long as the error has a message: to fail, the match has to make that message, and
whatever is raised meanwhile would leave it instead. The same goes for the error that refuses
a parse which an action started. If that parse is one with a sound node, the error always has
a message, since the labels of sound captures are texts.
-/

namespace Peg

variable {α : Type} [Named α]

/-! ## Matches of sound nodes -/

theorem Fault.IsLocal.isConfig {f : Fault} (h : f.IsLocal) : f.isConfig = false := by
  cases f <;> first | exact h.elim | rfl

theorem codePointAt_ok {input : Input} {pos : Int} (hpos : 0 ≤ pos) (hlt : pos < input.size) :
    ∃ c, codePointAt input pos = .ok c := by
  have hindex : pos.toNat < input.codes.size := by
    unfold Input.size at hlt
    omega
  rw [codePointAt, if_neg (by omega), Input.at?, if_neg (by omega),
    Array.getElem?_eq_getElem hindex]
  exact ⟨_, rfl⟩

/-- A leaf of the builders has no fault. -/
theorem matchLeaf_of_isBuilt {ctx : Context α} {limit : Nat} {input : Input} {active : Active}
    {node : Node α} {pos : Int} (hleaf : node.IsLeaf) (hbuilt : node.IsBuilt) (hpos : 0 ≤ pos) :
    (matchNode ctx (limit + 1) input active node pos).Meets (fun _ stop => 0 ≤ stop)
      (fun _ => True) (fun _ => False) := by
  cases node with
  | literal t =>
      rw [matchNode_literal, matchLiteral]
      split
      · show 0 ≤ pos + (t.length : Int)
        omega
      · exact trivial
  | range low high =>
      obtain ⟨t, ht⟩ := describeRange_ok hbuilt
      rw [matchNode_range, matchRange, matchCodePoint, ht]
      split
      · exact trivial
      · next hlt =>
          obtain ⟨c, hc⟩ := codePointAt_ok hpos (Int.not_le.mp hlt)
          rw [hc]
          cases hin : decide (low ≤ (c.val : Int) ∧ (c.val : Int) ≤ high) with
          | true =>
              simp only [hin]
              show 0 ≤ pos + 1
              omega
          | false => simp only [hin]; exact trivial
  | empty shared => exact hpos
  | bare | stray _ | looseLiteral _ | looseRange _ _ => exact hbuilt.elim
  | sequence _ | choice _ | many _ | exclusion _ _ | capture _ _ | action _ _
  | placeholder _ _ => exact hleaf.elim

/-- Every error that an action raises has a message, and so has every error that refuses a
parse which an action starts. -/
structure Context.ShowsErrors (ctx : Context α) : Prop where
  raised : ∀ act v r, ctx.perform act v = .raised r → ∃ kind t, r = .shown kind t
  refused : ∀ act v inner text limit e t, ctx.perform act v = .parse inner text →
    parseInside ctx limit inner text = .error (.refused e t) →
    ∃ kind u, e.raised (some t) = .shown kind u

/-- Where errors can be shown, nothing is handed on but what is about the grammar. -/
theorem Context.HandsOn.raises {ctx : Context α} (hshows : ctx.ShowsErrors) {node : Node α}
    {r : Raised} (h : ctx.HandsOn node r) : r.kind.isConfig = true ∧ ctx.Raises node r := by
  induction h with
  | own hact hr hleaves =>
      obtain ⟨kind, t, rfl⟩ := hshows.raised _ _ _ hr
      cases hleaves with
      | config hconfig => exact ⟨hconfig, .own hact hr⟩
  | inside hact hp _ hleaves ih =>
      cases hleaves with
      | config hconfig => exact ⟨hconfig, .inside hact hp ih.2⟩
      | cause hconfig _ => cases hconfig.symm.trans ih.1
  | @refused node item inner act v text t limit e r hact hp hi hleaves =>
      obtain ⟨kind, u, hu⟩ := hshows.refused _ _ _ _ _ _ _ hp hi
      have hkind : kind.isConfig = false := by
        rw [← e.kind_isConfig, ← e.raised_kind (some t), hu, Raised.shown_kind]
      rw [hu] at hleaves
      cases hleaves with
      | config hconfig => cases hkind.symm.trans hconfig

/-! ## Attempts -/

section Attempts

variable {ctx : Context α} {limit : Nat} {node : Node α} {text : Text} {pos : Int}

end Attempts

/-! ## Operations -/

namespace Workshop

variable {w : Workshop α}

end Workshop

/-! ## A program whose action raises an error -/

namespace Refusal

/-- The one action of the grammar. It refuses what it is given. -/
inductive Action where
  | refuse

instance : Named Action := ⟨fun _ => "refuse", fun _ => .defined⟩

def letter : Node Action := .literal "a"

def refused : Node Action := .action letter .refuse

def perform : Action → Value Action → ActionResult Action :=
  fun _ _ => .raised (.shown .value "no letters")

def workshop : Workshop Action :=
  (Workshop.new perform).run [.build (.literal (.text "a")),
    .build (.withAction (.node letter) (.action .refuse))]

theorem isReached : workshop.IsReached := by
  refine .step (.build (.withAction (.node letter) (.action .refuse)))
    (.step (.build (.literal (.text "a"))) (.new perform) ?_) ?_
  · exact ⟨fun v hv => List.mem_singleton.mp hv ▸ .text _, nofun⟩
  · refine ⟨fun v hv => ?_, nofun⟩
    rcases List.mem_pair.mp hv with rfl | rfl
    · exact .node List.mem_cons_self
    · exact .action _

/-- Where the error cannot be shown, what is raised in the attempt leaves the match. -/
example : attempt ⟨.empty, fun _ _ => .raised (.unshown .key (.shown .value "too long"))⟩
    4 refused "a" 0 = .error (.fault (.uncaught (.shown .value "too long"))) := rfl

end Refusal

/-! ## A resolver that is called twice -/

namespace Unfinished

theorem mem_nodes : ref ∈ workshop.nodes ∧ letter ∈ workshop.nodes :=
  ⟨.tail _ (.tail _ (.tail _ List.mem_cons_self)), .tail _ (.tail _ List.mem_cons_self)⟩

end Unfinished

end Peg
