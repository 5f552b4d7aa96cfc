import Peg.Proofs.Step

/-!
# Where a match can stop

A match never moves backwards, and it never moves past the end of the text, unless it
starts there: then it stays where it is. The bound is `max pos input.size`, which says
both. It holds for every position to start from, the negative ones included, although
those count from the end of the text when a leaf looks at it.

One node escapes the upper bound. A literal made without a check can hold a tuple of
texts, and it counts as long as the tuple whichever of them stands at the position. So
`matchNode_stop` asks that no such literal can be reached; every other node obeys, with
or without checks, and `matchNode_le_stop` asks for nothing.

The leaves have faults of their own, and so have descriptions. `Fault.IsLocal` sets
these apart from the faults that concern a run.
-/

namespace Peg

variable {α : Type}

namespace Input

/-- A text that stands at an index ends within the input. -/
theorem startsAt_le {input : Input} {t : Text} {i : Nat} (h : input.startsAt t i = true)
    (hi : i ≤ input.size) : i + t.length ≤ input.size := by
  induction t generalizing i with
  | nil => simpa using hi
  | cons c cs ih =>
      rw [startsAt, Bool.and_eq_true] at h
      have hc : input.codes[i]? = some c := by simpa using h.1
      have hlt : i < input.size := (Array.getElem?_eq_some_iff.mp hc).1
      have hcs := ih h.2 hlt
      simp only [List.length_cons]
      omega

theorem holds_le {input : Input} {t : Text} {pos : Int} (h : input.holds t pos = true) :
    pos + t.length ≤ max pos input.size := by
  rw [holds, Bool.and_eq_true, decide_eq_true_eq] at h
  obtain ⟨hpos, hstarts⟩ := h
  have hle := startsAt_le hstarts (Text.anchor_le input.size pos)
  unfold Text.anchor at hle
  split at hle
  · omega
  · omega

end Input

/-- A tuple of texts where the text of a literal belongs. -/
def Node.IsTupleLiteral : Node α → Prop
  | .looseLiteral (.tuple _) => True
  | _ => False

/-- No literal that a match of the node may come to holds a tuple of texts. -/
def Bindings.KeepsInside (b : Bindings α) (node : Node α) : Prop :=
  ∀ n, b.Reaches node n → ¬ n.IsTupleLiteral

namespace Fault

/-- The faults that a leaf or a description can have. -/
def IsLocal : Fault → Prop
  | unresolved _ | leftRecursion .. | uncaught _ | tooDeep => False
  | _ => True

theorem IsDescriptive.isLocal {f : Fault} (h : f.IsDescriptive) : f.IsLocal := by
  cases f <;> first | exact trivial | exact h.elim

end Fault

/-! ## Leaves -/

section Leaves

variable {input : Input} {pos : Int} {S : Value α → Int → Prop}

theorem failShowing_meets {d : Except Fault Text} {reason : Text → Reason α}
    (hd : Described d) :
    (failShowing pos d reason).Meets S (fun _ => True) Fault.IsLocal := by
  unfold failShowing
  cases d with
  | ok t => exact trivial
  | error f => exact (hd f rfl).isLocal

theorem matchLiteral_meets (t : Text) :
    (matchLiteral input t pos : Match α).Meets
      (fun _ stop => pos ≤ stop ∧ stop ≤ max pos input.size) (fun _ => True) Fault.IsLocal := by
  rw [matchLiteral]
  split
  · next h => exact ⟨by omega, Input.holds_le h⟩
  · exact trivial

theorem codePointAt_isLocal {f : Fault} (h : codePointAt input pos = .error f) : f.IsLocal := by
  rw [codePointAt] at h
  split at h
  · cases h; exact trivial
  · split at h
    · cases h
    · cases h; exact trivial

theorem matchCodePoint_meets {holds : CodePoint → Except Fault Bool} {d : Except Fault Text}
    (hholds : ∀ c f, holds c = .error f → f.IsLocal) (hd : Described d) :
    (matchCodePoint input holds d pos : Match α).Meets
      (fun _ stop => pos ≤ stop ∧ stop ≤ max pos input.size) (fun _ => True) Fault.IsLocal := by
  rw [matchCodePoint]
  split
  · exact failShowing_meets hd
  · next hlt =>
      cases hc : codePointAt input pos with
      | error f => exact codePointAt_isLocal hc
      | ok c =>
          simp only []
          cases hb : holds c with
          | error f => exact hholds c f hb
          | ok b =>
              cases b with
              | true => exact ⟨by omega, by omega⟩
              | false => exact failShowing_meets hd

variable [Named α]

theorem isBetween_isLocal {low high : Value α} {c : CodePoint} {f : Fault}
    (h : isBetween low high c = .error f) : f.IsLocal := by
  rw [isBetween] at h
  split at h
  · cases h; exact trivial
  · split at h
    · cases h
    · split at h
      · cases h; exact trivial
      · cases h

theorem holdsAny_isLocal {vs : List (Value α)} {f : Fault}
    (h : holdsAny input pos vs = .error f) : f.IsLocal := by
  induction vs with
  | nil => cases h
  | cons v vs ih =>
      cases v with
      | text t =>
          rw [holdsAny] at h
          split at h
          · cases h
          · exact ih h
      | _ =>
          simp only [holdsAny, Except.error.injEq] at h
          subst h
          exact trivial

theorem matchLooseLiteral_meets {isBound : Nat → Bool} (text : Value α) :
    (matchLooseLiteral isBound input text pos).Meets
      (fun _ stop => pos ≤ stop ∧
        (¬ (Node.looseLiteral text).IsTupleLiteral → stop ≤ max pos input.size))
      (fun _ => True) Fault.IsLocal := by
  cases text with
  | text t =>
      exact (matchLiteral_meets t).imp (fun _ _ h => ⟨h.1, fun _ => h.2⟩) (fun _ h => h)
        (fun _ h => h)
  | tuple items =>
      rw [matchLooseLiteral]
      cases h : holdsAny input pos items with
      | error f => exact holdsAny_isLocal h
      | ok b =>
          cases b with
          | true => exact ⟨by omega, fun hn => absurd trivial hn⟩
          | false => exact failShowing_meets (described_write isBound false _)
  | _ => rw [matchLooseLiteral] <;> first | exact trivial | simp

/-- A leaf stays within the text, and its faults are its own. -/
theorem matchLeaf_meets {ctx : Context α} {limit : Nat} {active : Active} {node : Node α}
    (hleaf : node.IsLeaf) :
    (matchNode ctx (limit + 1) input active node pos).Meets
      (fun _ stop => pos ≤ stop ∧ (¬ node.IsTupleLiteral → stop ≤ max pos input.size))
      (fun _ => True) Fault.IsLocal := by
  cases node with
  | literal t =>
      rw [matchNode_literal]
      exact (matchLiteral_meets t).imp (fun _ _ h => ⟨h.1, fun _ => h.2⟩) (fun _ h => h)
        (fun _ h => h)
  | range low high =>
      rw [matchNode_range]
      exact (matchCodePoint_meets (fun _ _ h => by cases h) (described_range low high)).imp
        (fun _ _ h => ⟨h.1, fun _ => h.2⟩) (fun _ h => h) (fun _ h => h)
  | looseRange low high =>
      show (matchLooseRange input low high pos).Meets _ _ _
      exact (matchCodePoint_meets (fun _ _ h => isBetween_isLocal h)
        (described_looseRange low high)).imp (fun _ _ h => ⟨h.1, fun _ => h.2⟩) (fun _ h => h)
        (fun _ h => h)
  | looseLiteral text => exact matchLooseLiteral_meets text
  | empty shared => rw [matchNode_empty]; exact ⟨by omega, fun _ => by omega⟩
  | bare | stray value => exact trivial
  | sequence _ | choice _ | many _ | exclusion _ _ | capture _ _ | action _ _
  | placeholder _ _ => exact hleaf.elim

end Leaves

/-! ## Whole matches -/

variable [Named α]

/-- A match stops no earlier than it starts. -/
theorem matchNode_le_stop (ctx : Context α) (input : Input) (limit : Nat) :
    ∀ (active : Active) (node : Node α) (pos : Int),
      (matchNode ctx limit input active node pos).Meets (fun _ stop => pos ≤ stop)
        (fun _ => True) (fun _ => True) := by
  induction limit with
  | zero => intro active node pos; rw [matchNode_zero]; exact trivial
  | succ limit ih =>
      intro active node pos
      refine matchNode_meets_succ (I := fun p => pos ≤ p) (Int.le_refl pos) (fun _ _ => trivial)
        (fun _ => trivial) (fun _ => trivial) ?leaf ?part ?target ?act
      case leaf =>
        intro hleaf
        exact (matchLeaf_meets hleaf).imp (fun _ _ h => h.1) (fun _ _ => trivial)
          (fun _ _ => trivial)
      case part =>
        intro n _ p hp
        exact (ih active n p).imp (fun _ _ h => Int.le_trans hp h) (fun _ h => h) (fun _ h => h)
      case target =>
        intro id name target _ _ _
        exact ih _ target pos
      case act =>
        intro item act v stop _ hstop
        exact finish_meets (fun _ => hstop) trivial (fun _ _ _ _ => trivial)
          (fun _ _ _ _ _ _ => trivial) fun _ _ _ _ _ _ _ _ => trivial

/-- A match stops no earlier than it starts, and within the text unless it starts past
its end. -/
theorem matchNode_stop (ctx : Context α) (input : Input) (limit : Nat) :
    ∀ (active : Active) (node : Node α) (pos : Int), ctx.bindings.KeepsInside node →
      (matchNode ctx limit input active node pos).Meets
        (fun _ stop => pos ≤ stop ∧ stop ≤ max pos input.size) (fun _ => True)
        (fun _ => True) := by
  induction limit with
  | zero => intro active node pos _; rw [matchNode_zero]; exact trivial
  | succ limit ih =>
      intro active node pos hinside
      refine matchNode_meets_succ (I := fun p => pos ≤ p ∧ p ≤ max pos input.size)
        ⟨by omega, by omega⟩ (fun _ _ => trivial) (fun _ => trivial) (fun _ => trivial)
        ?leaf ?part ?target ?act
      case leaf =>
        intro hleaf
        exact (matchLeaf_meets hleaf).imp (fun _ _ h => ⟨h.1, h.2 (hinside node .refl)⟩)
          (fun _ _ => trivial) (fun _ _ => trivial)
      case part =>
        intro n hn p hp
        have hn' : ctx.bindings.KeepsInside n := fun m hm => hinside m (.head (.part hn) hm)
        refine (ih active n p hn').imp (fun v stop h => ?_) (fun _ h => h) (fun _ h => h)
        omega
      case target =>
        intro id name target hnode ht _
        subst hnode
        exact ih _ target pos fun m hm => hinside m (.head (.target ht) hm)
      case act =>
        intro item act v stop _ hstop
        exact finish_meets (fun _ => hstop) trivial (fun _ _ _ _ => trivial)
          (fun _ _ _ _ _ _ => trivial) fun _ _ _ _ _ _ _ _ => trivial

end Peg
