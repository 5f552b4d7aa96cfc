import Peg.Proofs.Safety

/-!
# What a call of a resolver leaves behind

A resolver checks what it is given before it binds its placeholder, so a call that it
refuses changes nothing: the placeholder is as it was, and if it had no target it can still
be given one. What is not checked is whether the placeholder and the target can be
described. The descriptions are for the report of what was done, they are made when it is
done already, and they can have faults of their own, since a node made without checks may
hold a bound that is no code point or a value that is no node.

`resolvesAtomically_iff` says that this is the only way for a call to leave something behind
that it does not answer for. Such a call cannot be made good: the placeholder has its
target, and its resolver complains of every further call.
-/

namespace Peg

variable {α : Type} [Named α]

theorem Builder.node_eq_ok {isBound : Nat → Bool} {role : Role} {v : Value α} {n : Node α} :
    node isBound role v = .ok n ↔ v = .node n := by
  unfold node
  split
  · next m => simp
  · next hne =>
      have hrefused : refuse isBound v (.notANode role) ≠ .ok n := by
        unfold refuse
        split <;> simp
      simp only [hrefused, false_iff]
      exact hne n

/-- The descriptions with which a call reports that it bound a placeholder to a node. -/
def resolutionReport (b : Bindings α) (id : Nat) (name : Value α) (n : Node α) :
    Except Fault (Event α) := do
  let shown ← (Node.placeholder id name).describe (b.bind id n).isBound Node.usualDepth
  let target ← n.describe (b.bind id n).isBound 1
  return .resolved shown target

/-- What a call does with a node while the placeholder has no target: it binds, whatever
comes of the report. -/
theorem resolve_unbound {b : Bindings α} {id : Nat} (h : b.isBound id = false) (name : Value α)
    (n : Node α) : resolve b id name (.node n) =
      (b.bind id n, (resolutionReport b id name n).mapError .fault) := by
  simp only [resolve, Builder.node_eq_ok.mpr rfl, h, Bool.false_eq_true, if_false,
    resolutionReport]

theorem resolve_of_not_node {b : Bindings α} {target : Value α} (h : ∀ n, target ≠ .node n)
    (id : Nat) (name : Value α) : ∃ e, resolve b id name target = (b, .error e) := by
  unfold resolve
  cases hr : Builder.node b.isBound .recursionTarget target with
  | error e => exact ⟨e, rfl⟩
  | ok n => exact absurd (Builder.node_eq_ok.mp hr) (h n)

namespace Workshop

/-- The call either returns the very node that it was given, and the placeholder, which had
no target before, has this one after it; or it raises an error, and nothing has changed. -/
def ResolvesAtomically (w : Workshop α) (id : Nat) (name target : Value α) : Prop :=
  (∃ n, target = .node n ∧ w.isBound id = false ∧ w.step (.resolve id name target) =
      (w.rebind (w.context.bindings.bind id n), .ok (.node n))) ∨
    ∃ e, w.step (.resolve id name target) = (w, .error e)

/-- The call gives the placeholder its first target, and cannot describe what it did. -/
def BindsUnreported (w : Workshop α) (id : Nat) (name target : Value α) : Prop :=
  w.isBound id = false ∧ ∃ n f, target = .node n ∧
    resolutionReport w.context.bindings id name n = .error f

theorem BindsUnreported.step_eq {w : Workshop α} {id : Nat} {name target : Value α}
    (h : w.BindsUnreported id name target) : ∃ n f, target = .node n ∧
      w.step (.resolve id name target) =
        (w.rebind (w.context.bindings.bind id n), .error (.fault f)) := by
  obtain ⟨hfree, n, f, rfl, hreport⟩ := h
  refine ⟨n, f, rfl, ?_⟩
  rw [step, resolve_unbound hfree, hreport]
  rfl

omit [Named α] in
theorem rebind_bind_ne {w : Workshop α} {id : Nat} (h : w.isBound id = false) (n : Node α) :
    w.rebind (w.context.bindings.bind id n) ≠ w := by
  intro heq
  have hbound : (w.rebind (w.context.bindings.bind id n)).isBound id = true := by
    rw [isBound, rebind, Bindings.isBound, Bindings.target?_bind, if_pos rfl]
    rfl
  rw [heq, h] at hbound
  cases hbound

/-- A call of a resolver is atomic unless it binds the placeholder and cannot report that. -/
theorem resolvesAtomically_iff (w : Workshop α) (id : Nat) (name target : Value α) :
    w.ResolvesAtomically id name target ↔ ¬ w.BindsUnreported id name target := by
  constructor
  · rintro (⟨n, rfl, -, hreturned⟩ | ⟨e, hraised⟩) hunreported
    · obtain ⟨_, f, -, hstep⟩ := hunreported.step_eq
      cases hreturned.symm.trans hstep
    · obtain ⟨n, f, -, hstep⟩ := hunreported.step_eq
      exact rebind_bind_ne hunreported.1 n (congrArg Prod.fst (hstep.symm.trans hraised))
  · intro hreported
    by_cases hnode : ∃ n, target = .node n
    · obtain ⟨n, rfl⟩ := hnode
      cases hbound : w.isBound id with
      | true =>
          obtain ⟨e, he⟩ := resolve_of_isBound (b := w.context.bindings) hbound name (.node n)
          exact .inr ⟨e, by rw [step, he]; rfl⟩
      | false =>
          cases hreport : resolutionReport w.context.bindings id name n with
          | error f => exact absurd ⟨hbound, n, f, rfl, hreport⟩ hreported
          | ok event =>
              refine .inl ⟨n, rfl, hbound, ?_⟩
              rw [step, resolve_unbound hbound, hreport]
              rfl
    · obtain ⟨e, he⟩ := resolve_of_not_node (b := w.context.bindings)
        (fun n hn => hnode ⟨n, hn⟩) id name
      exact .inr ⟨e, by rw [step, he]; rfl⟩

/-- What is made without checks is the only thing that a call can bind and not report. -/
theorem not_bindsUnreported_of_isSound (w : Workshop α) {id : Nat} {name target : Value α}
    (hplaceholder : (Node.placeholder id name).IsSound)
    (htarget : target.IsMadeOf Node.IsSound) : ¬ w.BindsUnreported id name target := by
  rintro ⟨-, n, f, rfl, hreport⟩
  have hn : n.IsSound := by
    cases htarget with
    | node hn => exact hn
  obtain ⟨shown, hshown⟩ :=
    hplaceholder.describe (w.context.bindings.bind id n).isBound Node.usualDepth
  obtain ⟨t, ht⟩ := hn.describe (w.context.bindings.bind id n).isBound 1
  rw [resolutionReport, hshown, ht] at hreport
  cases hreport

/-- A call of a resolver is atomic unless it binds the placeholder and cannot report that,
which takes a placeholder or a node that the builders did not make. After such a call the
placeholder is bound for good, although the call raised an error. -/
theorem resolver_calls (w : Workshop α) (id : Nat) (name target : Value α) :
    (w.ResolvesAtomically id name target ↔ ¬ w.BindsUnreported id name target) ∧
    ((Node.placeholder id name).IsSound → target.IsMadeOf Node.IsSound →
      w.ResolvesAtomically id name target) ∧
    (w.BindsUnreported id name target → ∃ n f w', target = .node n ∧
      w.step (.resolve id name target) = (w', .error (.fault f)) ∧
      ∀ ops, (w'.run ops).context.bindings.target? id = some n ∧
        ∀ name' other, ∃ e, (w'.run ops).step (.resolve id name' other) =
          (w'.run ops, .error e)) := by
  refine ⟨w.resolvesAtomically_iff id name target, fun hplaceholder htarget => ?_,
    fun hunreported => ?_⟩
  · exact (w.resolvesAtomically_iff id name target).mpr
      (w.not_bindsUnreported_of_isSound hplaceholder htarget)
  · obtain ⟨n, f, hnode, hstep⟩ := hunreported.step_eq
    refine ⟨n, f, _, hnode, hstep, fun ops => ?_⟩
    have hbound : ((w.rebind (w.context.bindings.bind id n)).run ops).context.bindings.target? id =
        some n := run_isKeptBy _ ops id n (by rw [rebind, Bindings.target?_bind, if_pos rfl])
    refine ⟨hbound, fun name' other => ?_⟩
    obtain ⟨e, he⟩ := resolve_of_isBound (Option.isSome_iff_exists.mpr ⟨n, hbound⟩) name' other
    exact ⟨e, by rw [step, he]; rfl⟩

end Workshop

namespace Unfinished

/-- A range whose bounds are no code points, made without a check. -/
def beyond : Node Action := .range 0x110000 0x110000

theorem bindsUnreported_beyond : workshop.BindsUnreported 0 (.text "r") (.node beyond) :=
  ⟨rfl, beyond, .notACodePoint, rfl, rfl⟩

/-- The call with the range raises an error, and then the letter comes too late. -/
theorem resolver_calls_beyond :
    workshop.BindsUnreported 0 (.text "r") (.node beyond) ∧ ref.IsSound ∧
      (Value.node letter).IsMadeOf Node.IsSound ∧
      workshop.ResolvesAtomically 0 (.text "r") (.node letter) ∧
      ∃ w' : Workshop Action, (workshop.step (.resolve 0 (.text "r") (.node beyond))).1 = w' ∧
        w'.context.bindings.target? 0 = some beyond ∧
        ∃ e, w'.step (.resolve 0 (.text "r") (.node letter)) = (w', .error e) := by
  have href : ref.IsSound := isSound_placeholder 0 (.text "r")
  have hletter : (Value.node letter).IsMadeOf Node.IsSound :=
    .node (Node.isSound_of_parts trivial fun p hp => by cases hp)
  obtain ⟨n, f, w', hnode, hstep, hafter⟩ :=
    (Workshop.resolver_calls workshop 0 (.text "r") (.node beyond)).2.2 bindsUnreported_beyond
  cases hnode
  obtain ⟨hbound, hraises⟩ := hafter []
  exact ⟨bindsUnreported_beyond, href, hletter,
    (Workshop.resolver_calls workshop 0 (.text "r") (.node letter)).2.1 href hletter,
    w', congrArg Prod.fst hstep, hbound, hraises (.text "r") (.node letter)⟩

/-- A call can raise an error and leave its placeholder bound. -/
theorem resolver_binds_and_raises :
    ¬ ∀ (w : Workshop Action) (id : Nat) (name target : Value Action), w.IsReached →
      .placeholder id name ∈ w.nodes → w.ResolvesAtomically id name target := by
  intro h
  exact (workshop.resolvesAtomically_iff 0 (.text "r") (.node beyond)).mp
    (h workshop 0 (.text "r") (.node beyond) isReached mem_nodes.1) bindsUnreported_beyond

end Unfinished

end Peg
