import Peg.Proofs.Labels

/-!
# Errors that leave a match as they are

An error that an action raises ends the match in two ways other than a failure. If it is
about the grammar it is handed on as it is. And if its message cannot be made, what was
raised in the attempt is handed on in its place. The same goes for the error that ends a
parse which an action started, and so an error may cross any nesting of parses, and may be
exchanged for another in each of them.

`Context.HandsOn` follows such an error back to where it comes from, and `matchNode_handsOn`
says that it has to come from somewhere: an action raised it, or it stands for an error that
an action raised, or for a refusal whose labels cannot be shown. What is true of all that
actions raise, and of all that is raised while messages are made, is true of it.
-/

namespace Peg

variable {α : Type}

/-! ## Where the errors come from -/

/-- An action that a match of the node may come to raised the error, itself or in a parse
that it started. -/
inductive Context.Raises (ctx : Context α) : Node α → Raised → Prop
  | own {node item : Node α} {act : α} {v : Value α} {r : Raised} :
    ctx.bindings.Reaches node (.action item act) → ctx.perform act v = .raised r →
    Raises ctx node r
  | inside {node item inner : Node α} {act : α} {v : Value α} {text : Text} {r : Raised} :
    ctx.bindings.Reaches node (.action item act) → ctx.perform act v = .parse inner text →
    Raises ctx inner r → Raises ctx node r

variable [Named α]

/-- The error is one that a match of the node may hand on as it is. -/
inductive Context.HandsOn (ctx : Context α) : Node α → Raised → Prop
  /-- An action raised it, or an error in whose place it is handed on. -/
  | own {node item : Node α} {act : α} {v : Value α} {r r' : Raised} :
    ctx.bindings.Reaches node (.action item act) → ctx.perform act v = .raised r →
    r.Leaves r' → HandsOn ctx node r'
  /-- A parse that an action started handed it on, or an error in whose place it is. -/
  | inside {node item inner : Node α} {act : α} {v : Value α} {text : Text} {r r' : Raised} :
    ctx.bindings.Reaches node (.action item act) → ctx.perform act v = .parse inner text →
    HandsOn ctx inner r → r.Leaves r' → HandsOn ctx node r'
  /-- A parse that an action started is refused with an error that cannot be shown. -/
  | refused {node item inner : Node α} {act : α} {v : Value α} {text t : Text} {limit : Nat}
    {e : ParseError α} {r' : Raised} :
    ctx.bindings.Reaches node (.action item act) → ctx.perform act v = .parse inner text →
    parseInside ctx limit inner text = .error (.refused e t) →
    (e.raised (some t)).Leaves r' → HandsOn ctx node r'

section Sources

variable {ctx : Context α} {node n : Node α} {r : Raised}

theorem Context.HandsOn.of_reaches (hn : ctx.bindings.Reaches node n) (h : ctx.HandsOn n r) :
    ctx.HandsOn node r := by
  cases h with
  | own hact hr hleaves => exact .own (hn.trans hact) hr hleaves
  | inside hact hp hr hleaves => exact .inside (hn.trans hact) hp hr hleaves
  | refused hact hp hi he => exact .refused (hn.trans hact) hp hi he

/-- What leaves a match in place of an error is not the end of the stack. -/
theorem Raised.Leaves.kind_ne {r r' : Raised} (h : r.Leaves r') : r'.kind ≠ .recursion := by
  cases h with
  | config hconfig => exact fun hkind => by rw [hkind] at hconfig; cases hconfig
  | cause _ hkind => exact hkind

/-- A refusal is not handed on, but what is raised while it is shown may be. -/
theorem ParseError.raised_leaves {e : ParseError α} {text : Option Text}
    (h : (e.raised text).Leaves r) : ∃ i t, r = (Fault.notAmongLabels i t).raised := by
  have hconfig := e.kind_isConfig
  rcases e.raised_cases text with ⟨t, ht⟩ | ⟨i, t, ht⟩
  · rw [ht] at h
    cases h with
    | config h => rw [Raised.shown_kind, hconfig] at h; cases h
  · rw [ht] at h
    cases h with
    | config h => rw [Raised.unshown_kind, hconfig] at h; cases h
    | cause _ _ => exact ⟨i, t, rfl⟩

/-- What is true of all errors that actions raise, and of whatever is raised while messages
are made, is true of the errors that are handed on. -/
theorem Context.HandsOn.induct {P : Raised → Prop} (h : ctx.HandsOn node r)
    (hraised : ∀ r, ctx.Raises node r → P r)
    (hcause : ∀ kind cause, P (.unshown kind cause) → P cause)
    (hlabel : ∀ i t, P (Fault.notAmongLabels i t).raised) : P r := by
  have hleaves {r r' : Raised} (hleaves : r.Leaves r') (hr : P r) : P r' := by
    cases hleaves with
    | config _ => exact hr
    | cause _ _ => exact hcause _ _ hr
  induction h with
  | own hact hr hl => exact hleaves hl (hraised _ (.own hact hr))
  | inside hact hp _ hl ih => exact hleaves hl (ih fun r hr => hraised r (.inside hact hp hr))
  | refused _ _ _ he =>
      obtain ⟨i, t, rfl⟩ := ParseError.raised_leaves he
      exact hlabel i t

end Sources

/-! ## Matches -/

/-- An error that ends a match as it is has somewhere to come from. -/
theorem matchNode_handsOn (ctx : Context α) (limit : Nat) :
    ∀ (input : Input) (active : Active) (node : Node α) (pos : Int),
      (matchNode ctx limit input active node pos).Meets (fun _ _ => True) (fun _ => True)
        (fun f => ∀ r, f = .uncaught r → r.kind ≠ .recursion ∧ ctx.HandsOn node r) := by
  -- A parse inside an action takes two levels at once.
  induction limit using Nat.strong_induction_on with
  | h limit ih =>
      intro input active node pos
      cases limit with
      | zero => exact fun r h => by cases h
      | succ limit =>
      have hbelow : ∀ active n p, ctx.bindings.Reaches node n →
          (matchNode ctx limit input active n p).Meets (fun _ _ => True) (fun _ => True)
            (fun f => ∀ r, f = .uncaught r → r.kind ≠ .recursion ∧ ctx.HandsOn node r) :=
        fun active n p hn => (ih limit limit.lt_succ_self input active n p).imp (fun _ _ h => h)
          (fun _ h => h) (fun _ h r hr => ⟨(h r hr).1, (h r hr).2.of_reaches hn⟩)
      refine matchNode_meets_succ (I := fun _ => True) trivial ?described
        (fun _ _ h => by cases h) (fun _ _ h => by cases h) ?leaf
        (fun n hn p _ => hbelow active n p (.part .refl hn)) ?target ?act
      case described =>
        rintro f hf r rfl
        exact hf.elim
      case leaf =>
        intro hleaf
        refine (matchLeaf_meets hleaf).imp (fun _ _ _ => trivial) (fun _ h => h) ?_
        rintro f hf r rfl
        exact hf.elim
      case target =>
        rintro id name target rfl ht _
        exact hbelow _ target pos (.target .refl ht)
      case act =>
        rintro item act v stop rfl _
        -- What ends the parse that the action starts, if it is an error at all.
        have hinner {inner : Node α} {text : Text} {r : Raised}
            (hi : parseInside ctx limit inner text = .error (.fault (.uncaught r))) :
            ctx.HandsOn inner r := by
          cases limit with
          | zero => cases hi
          | succ limit =>
              have hmatch := ih limit (by omega) (.ofText text) [] inner 0
              rw [(parseInside_fault hi).1] at hmatch
              exact (hmatch r rfl).2
        refine finish_meets (fun _ => trivial) (fun r h => by cases h) ?raised ?parse ?unshown
        case raised =>
          intro r r' hr hleaves _ h
          cases h
          exact ⟨hleaves.kind_ne, .own .refl hr hleaves⟩
        case parse =>
          rintro inner text f hp hi hconfig r rfl
          have hleaves : r.Leaves r := .config hconfig
          exact ⟨hleaves.kind_ne, .inside .refl hp (hinner hi) hleaves⟩
        case unshown =>
          intro inner text halt r' hp hi hconfig hleaves _ h
          cases h
          refine ⟨hleaves.kind_ne, ?_⟩
          cases halt with
          | refused e t => exact .refused .refl hp hi hleaves
          | fault f =>
              cases f with
              | uncaught r => exact .inside .refl hp (hinner hi) hleaves
              | _ => cases hleaves; cases hconfig.symm.trans ‹_›

end Peg
