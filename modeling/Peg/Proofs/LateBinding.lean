import Peg.Proofs.Construction
import Peg.Proofs.Marks
import Peg.Proofs.Simulation
import Peg.Script.Session

/-!
# Binding late changes no answer

A placeholder gets its target once and for all, whatever a program does before and after.
So bindings only ever grow, and with them what can be matched: an attempt that met no
placeholder without a target goes the same way later, since all that it looked up is still
there. Its answer is the same to the word, but for the marks of unresolved placeholders
in descriptions.

The two attempts are compared by `matchNode_related_succ`. The first one is excused where
it meets a placeholder without a target; nothing else that a match does depends on what is
bound. It is for the sake of the excuse that the nodes have to be sound: a placeholder
that cannot be shown has a fault of another kind, which an action can make a failure of.

An action is a function of the result that it is given, or it parses a text with a node.
What such a parse comes to may depend on what is bound, but in the same way as the match
that it is a part of.
-/

namespace Peg

variable {α β γ : Type}

/-! ## Bindings that grow -/

/-- Whatever has a target has it under the other bindings as well. -/
def Bindings.IsKeptBy (b b' : Bindings α) : Prop :=
  ∀ id target, b.target? id = some target → b'.target? id = some target

namespace Bindings.IsKeptBy

variable {b b' b'' : Bindings α}

theorem refl (b : Bindings α) : b.IsKeptBy b := fun _ _ h => h

theorem trans (h : b.IsKeptBy b') (h' : b'.IsKeptBy b'') : b.IsKeptBy b'' :=
  fun id target ht => h' id target (h id target ht)

theorem isBound (h : b.IsKeptBy b') (id : Nat) (hid : b.isBound id = true) :
    b'.isBound id = true := by
  obtain ⟨target, ht⟩ := Option.isSome_iff_exists.mp hid
  rw [Bindings.isBound, h id target ht]
  rfl

end Bindings.IsKeptBy

/-! ## Ends without some marks -/

/-- The second end is the first without some marks, unless the first met a placeholder
without a target. -/
def Outcome.Sheds (o o' : Outcome (ParseError α) β) : Prop :=
  o.Related (· = ·) ParseError.Sheds Fault.Sheds (fun f => ∃ t, f = .unresolved t) o'

theorem Outcome.Sheds.refl (o : Match α) : o.Sheds o := Related.refl (fun _ => rfl) .refl .refl o

/-- The second answer is the first, but for marks in its error. -/
inductive Attempt.Sheds : Attempt α → Attempt α → Prop
  | matched (v : Value α) (consumed : Int) : Sheds (.matched v consumed) (.matched v consumed)
  | failed {e e' : ParseError α} : e.Sheds e' → Sheds (.failed e) (.failed e')

/-- The second run ends as the first: with an answer that corresponds by `R`, or without
one for the same reason, but for marks in its words. -/
inductive RunSheds (R : β → β → Prop) : Except (Halt α) β → Except (Halt α) β → Prop
  | answer {x x' : β} : R x x' → RunSheds R (.ok x) (.ok x')
  | refused {e e' : ParseError α} (text : Text) : e.Sheds e' →
    RunSheds R (.error (.refused e text)) (.error (.refused e' text))
  | fault {f f' : Fault} : f.Sheds f' → RunSheds R (.error (.fault f)) (.error (.fault f'))

theorem RunSheds.bind {R : β → β → Prop} {Q : γ → γ → Prop} {d d' : Except (Halt α) β}
    {next next' : β → Except (Halt α) γ} (h : RunSheds R d d')
    (hnext : ∀ x x', R x x' → RunSheds Q (next x) (next' x')) :
    RunSheds Q (d >>= next) (d' >>= next') := by
  cases h with
  | answer hx => exact hnext _ _ hx
  | refused text he => exact .refused text he
  | fault hf => exact .fault hf

/-- An attempt is excused where its match is. -/
theorem Outcome.Sheds.toAttempt {o o' : Match α} (h : o.Sheds o') (text : Text) (pos : Int) :
    (∃ t, o.toAttempt text pos = .error (.fault (.unresolved t))) ∨
      RunSheds Attempt.Sheds (o.toAttempt text pos) (o'.toAttempt text pos) := by
  cases h with
  | success hstop => rw [hstop]; exact .inr (.answer (.matched _ _))
  | failure he => exact .inr (.answer (.failed he))
  | excused hf =>
      obtain ⟨t, rfl⟩ := hf
      exact .inl ⟨t, rfl⟩
  | fault hf =>
      right
      cases hf with
      | leftRecursion p ht => exact .fault (.leftRecursion p ht)
      | refl =>
          next f =>
          cases f <;> first | exact .refused text (.refl _) | exact .fault (.refl _)

theorem Attempt.Sheds.complete {a a' : Attempt α} (h : a.Sheds a') (text : Text) :
    RunSheds (· = ·) (a.complete text) (a'.complete text) := by
  cases h with
  | failed he => exact .refused text he
  | matched v consumed =>
      rw [Attempt.complete]
      split
      · exact .answer rfl
      · exact .refused text (.refl _)

/-! ## Matches under more bindings -/

/-- An error of an action that concerns neither the grammar nor the stack stays a failure,
whatever its words are. -/
theorem settle_sheds {kind : Kind} {d d' : Except Fault Text} (hkind : kind.isConfig = false)
    (h : AlikeUpTo Text.Sheds d d') (pos : Int) :
    (settle pos (.ofMessage kind (d.mapError Fault.raised)) : Match α).Sheds
      (settle pos (.ofMessage kind (d'.mapError Fault.raised))) := by
  cases h with
  | error f => exact .refl _
  | @ok t t' ht =>
      show (settle pos (.shown kind t)).Sheds (settle pos (.shown kind t'))
      by_cases hdeep : kind = .recursion
      · have hends (u : Text) : (Raised.shown kind u).EndsStack := hdeep
        rw [settle_of_endsStack (hends t), settle_of_endsStack (hends t')]
        exact .refl _
      · rw [settle_of_isPlain ⟨hkind, hdeep⟩, settle_of_isPlain ⟨hkind, hdeep⟩]
        exact .failure (.leaf pos [] (.transform kind ht))

variable [Named α]

/-- What an action at `pos` hands on of a parse that it started. -/
def handOn (pos stop : Int) : Except (Halt α) (Value α) → Match α
  | .ok w => .success w stop
  | .error halt => settleHalt pos halt

theorem RunSheds.handOn {d d' : Except (Halt α) (Value α)} (h : RunSheds (· = ·) d d')
    (pos stop : Int) : (handOn pos stop d).Sheds (Peg.handOn pos stop d') := by
  cases h with
  | answer hw => rw [hw]; exact .refl _
  | refused text he =>
      simp only [Peg.handOn, settleHalt, ParseError.raised, he.kind]
      exact settle_sheds (ParseError.kind_isConfig _) (he.render _) pos
  | fault hf =>
      cases hf with
      | refl f => exact .refl _
      | leftRecursion p ht => exact .fault (.leftRecursion p ht)

section Parts

variable {ctx ctx' : Context α} {input : Input} {pos : Int} {limit : Nat}

theorem shownAs_sheds (hkept : ctx.bindings.IsKeptBy ctx'.bindings) (id : Nat) (name : Value α)
    {fault : Text → Fault} (hfault : ∀ t t', t.Sheds t' → (fault t).Sheds (fault t')) :
    (ctx.shownAs id name fault).Sheds (ctx'.shownAs id name fault) := by
  have hshown := describe_sheds hkept.isBound (Node.placeholder id name) 0
  unfold Context.shownAs
  generalize (Node.placeholder id name).describe ctx.bindings.isBound 0 = d at hshown ⊢
  generalize (Node.placeholder id name).describe ctx'.bindings.isBound 0 = d' at hshown ⊢
  cases hshown with
  | ok ht => exact .fault (hfault _ _ ht)
  | error f => exact .fault (.refl f)

/-- No leaf of the builders looks at the bindings. -/
theorem matchLeaf_unmarked {active : Active} {node : Node α} (hleaf : node.IsLeaf)
    (hbuilt : node.IsBuilt) : matchNode ctx (limit + 1) input active node pos =
      matchNode ctx' (limit + 1) input active node pos := by
  cases node with
  | literal _ | range _ _ | empty _ => rfl
  | bare | stray _ | looseLiteral _ | looseRange _ _ => exact hbuilt.elim
  | sequence _ | choice _ | many _ | exclusion _ _ | capture _ _ | action _ _
  | placeholder _ _ => exact hleaf.elim

end Parts

/-- The nodes that the actions parse with are sound. -/
def Context.ParsesSound (ctx : Context α) : Prop :=
  ∀ act v inner text, ctx.perform act v = .parse inner text → inner.IsSound

/-- A match of a sound node that met no placeholder without a target goes the same way
under more bindings. -/
theorem matchNode_sheds {ctx ctx' : Context α} (hbindings : ctx.bindings.IsSound)
    (hparses : ctx.ParsesSound) (hkept : ctx.bindings.IsKeptBy ctx'.bindings)
    (hperform : ctx'.perform = ctx.perform) (limit : Nat) :
    ∀ (input : Input) (active : Active) (node : Node α) (pos : Int), node.IsSound →
      (matchNode ctx limit input active node pos).Sheds
        (matchNode ctx' limit input active node pos) := by
  -- A parse inside an action takes two levels at once.
  induction limit using Nat.strong_induction_on with
  | h limit ih =>
      intro input active node pos hnode
      cases limit with
      | zero => exact .fault (.refl _)
      | succ limit =>
      refine matchNode_related_succ (I := (· = ·)) rfl rfl ?moved ?exhausted ?label ?excluded
        ?leaf ?part ?placeholder ?act
      case moved =>
        rintro p p' q q' rfl rfl
        exact Iff.rfl
      case exhausted => exact fun es es' hes => .exhausted pos [] hes
      case label => exact fun e e' label he => he.addLabel label
      case excluded =>
        intro item forbidden _
        have hshown := describe_sheds hkept.isBound forbidden Node.usualDepth
        generalize forbidden.describe ctx.bindings.isBound Node.usualDepth = d at hshown ⊢
        generalize forbidden.describe ctx'.bindings.isBound Node.usualDepth = d' at hshown ⊢
        cases hshown with
        | ok ht => exact .failure (.leaf pos [] (.excluded ht))
        | error f => exact .fault (.refl f)
      case leaf =>
        intro hleaf
        have hsame : matchNode ctx (limit + 1) input active node pos =
            matchNode ctx' (limit + 1) input active node pos :=
          matchLeaf_unmarked hleaf hnode.isBuilt
        rw [hsame]
        exact Outcome.Sheds.refl _
      case part =>
        rintro n hn p p' rfl
        exact ih limit limit.lt_succ_self input active n p (hnode.part hn)
      case placeholder =>
        rintro id name rfl
        refine matchNode_placeholder_related (hkept id) Iff.rfl (fun ht => ?_)
          (shownAs_sheds hkept id name fun t t' h => .leftRecursion pos h) fun target ht => ?_
        · obtain ⟨t, hshown⟩ := hnode.describe ctx.bindings.isBound 0
          rw [Context.shownAs, hshown]
          exact .excused ⟨t, rfl⟩
        · exact ih limit limit.lt_succ_self input _ target pos (hbindings id target ht)
      case act =>
        rintro item act v stop stop' rfl rfl
        unfold Context.finish
        rw [hperform]
        cases hp : ctx.perform act v with
        | value w => exact Outcome.Sheds.refl _
        | raised r => exact Outcome.Sheds.refl _
        | parse inner text =>
            show (handOn pos stop _).Sheds (handOn pos stop _)
            cases limit with
            | zero => exact Outcome.Sheds.refl _
            | succ limit =>
                have hinner := ih limit (by omega) (.ofText text) [] inner 0
                  (hparses act v inner text hp)
                rw [parseInside, parseInside]
                rcases hinner.toAttempt text 0 with ⟨t, ht⟩ | hattempt
                · rw [ht]
                  exact .excused ⟨t, rfl⟩
                · exact (hattempt.bind fun a a' ha => ha.complete text).handOn pos stop

/-! ## Whole runs -/

theorem resolve_isKeptBy (b : Bindings α) (id : Nat) (name target : Value α) :
    b.IsKeptBy (resolve b id name target).1 := by
  unfold resolve
  cases Builder.node b.isBound .recursionTarget target with
  | error e => exact .refl b
  | ok n =>
      simp only []
      split
      · split <;> exact .refl b
      · next hfree =>
          intro other m hm
          have hne : other ≠ id := by
            rintro rfl
            exact hfree (by rw [Bindings.isBound, hm]; rfl)
          rw [Bindings.target?_bind, if_neg hne]
          exact hm

/-- The resolver of a placeholder that has its target has no effect but an error. -/
theorem resolve_of_isBound {b : Bindings α} {id : Nat} (h : b.isBound id = true)
    (name target : Value α) : ∃ e, resolve b id name target = (b, .error e) := by
  unfold resolve
  cases Builder.node b.isBound .recursionTarget target with
  | error e => exact ⟨e, rfl⟩
  | ok n =>
      simp only [if_pos h]
      split <;> exact ⟨_, rfl⟩

namespace Workshop

theorem step_perform (w : Workshop α) (op : Operation α) :
    (w.step op).1.context.perform = w.context.perform := by
  cases op with
  | build call => rw [step]; cases call.apply w.isBound <;> rfl
  | declare _ | resolve _ _ _ | attempt _ _ _ _ | parse _ _ _ | describe _ _ => rfl

theorem step_isKeptBy (w : Workshop α) (op : Operation α) :
    w.context.bindings.IsKeptBy (w.step op).1.context.bindings := by
  cases op with
  | build call => rw [step]; cases call.apply w.isBound <;> exact .refl _
  | resolve id name target => exact resolve_isKeptBy w.context.bindings id name target
  | declare _ | attempt _ _ _ _ | parse _ _ _ | describe _ _ => exact .refl _

theorem run_perform (w : Workshop α) (ops : List (Operation α)) :
    (w.run ops).context.perform = w.context.perform := by
  induction ops generalizing w with
  | nil => rfl
  | cons op ops ih => rw [run_cons, ih, step_perform]

theorem run_isKeptBy (w : Workshop α) (ops : List (Operation α)) :
    w.context.bindings.IsKeptBy (w.run ops).context.bindings := by
  induction ops generalizing w with
  | nil => exact .refl _
  | cons op ops ih => exact (w.step_isKeptBy op).trans (ih _)

/-- Whatever a program goes on to do, a placeholder that has its target keeps it and can be
given no other, and an attempt that met no placeholder without a target would be answered
in the same way later, but for the marks of such placeholders in its errors. -/
theorem run_keeps_answers (w : Workshop α) (ops : List (Operation α)) :
    (∀ id target, w.context.bindings.target? id = some target →
      (w.run ops).context.bindings.target? id = some target ∧
      ∀ name other, ∃ e, (w.run ops).step (.resolve id name other) = (w.run ops, .error e)) ∧
    (w.IsReached → w.context.ParsesSound → ∀ node ∈ w.nodes, ∀ limit text pos,
      (∀ t, Peg.attempt w.context limit node text pos ≠ .error (.fault (.unresolved t))) →
      RunSheds Attempt.Sheds (Peg.attempt w.context limit node text pos)
        (Peg.attempt (w.run ops).context limit node text pos)) := by
  have hkept := w.run_isKeptBy ops
  refine ⟨fun id target ht => ⟨hkept id target ht, fun name other => ?_⟩,
    fun hw hparses node hnode limit text pos hresolved => ?_⟩
  · have hbound : (w.run ops).context.bindings.isBound id = true := by
      rw [Bindings.isBound, hkept id target ht]
      rfl
    obtain ⟨e, he⟩ := resolve_of_isBound hbound name other
    exact ⟨e, by rw [step, he]; rfl⟩
  · have hsheds := matchNode_sheds hw.isSound.bindings hparses hkept (w.run_perform ops) limit
      (.ofText text) [] node pos (hw.isSound.nodes node hnode)
    rcases hsheds.toAttempt text pos with ⟨t, ht⟩ | hattempt
    · exact absurd ht (hresolved t)
    · exact hattempt

end Workshop

/-! ## Scripts -/

namespace Script.Session

theorem evaluating_isKeptBy {b : Bindings Action} {s : Session} {e : Eval β}
    {next : Session → β → Progress} (hs : b.IsKeptBy s.bindings)
    (hnext : ∀ s' x, b.IsKeptBy s'.bindings → b.IsKeptBy (next s' x).1.bindings) :
    b.IsKeptBy (s.evaluating e next).1.bindings := by
  unfold evaluating
  split
  · exact hnext _ _ hs
  · exact hs

theorem withGrammar_isKeptBy {b : Bindings Action} {s : Session} {name : Text}
    {operation : String} {next : Grammar Action → Progress} (hs : b.IsKeptBy s.bindings)
    (hnext : ∀ g, b.IsKeptBy (next g).1.bindings) :
    b.IsKeptBy (s.withGrammar name operation next).1.bindings := by
  unfold withGrammar
  split
  · exact hs
  · split
    · exact hnext _
    · exact hs

/-- The sessions of scripts keep the targets of placeholders as well. -/
theorem step_isKeptBy (s : Session) (st : Step) : s.bindings.IsKeptBy (s.step st).1.bindings := by
  have hs : s.bindings.IsKeptBy s.bindings := .refl _
  cases st with
  | resolve name target =>
      rw [step]
      split
      · exact hs
      · next id label _ =>
        refine evaluating_isKeptBy hs fun s' v hs' => ?_
        have hresolve := hs'.trans (resolve_isKeptBy s'.bindings id label v)
        simp only []
        split <;> exact hresolve
  | grammar name start label =>
      refine evaluating_isKeptBy hs fun s' x hs' => ?_
      simp only []
      split
      · exact hs'
      · exact evaluating_isKeptBy hs' fun _ _ h => h
  | grammarParse name text | grammarValidate name text =>
      exact withGrammar_isKeptBy hs fun g => evaluating_isKeptBy hs fun _ _ h => h
  | _ => exact evaluating_isKeptBy hs fun _ _ h => h

theorem steps_isKeptBy (s : Session) (steps : List Step) :
    s.bindings.IsKeptBy (steps.foldl (fun s st => (s.step st).1) s).bindings := by
  induction steps generalizing s with
  | nil => exact .refl _
  | cons st steps ih => exact (s.step_isKeptBy st).trans (ih _)

end Script.Session

/-! ## A program that matches before it resolves -/

namespace Unfinished

/-- The program has no actions. -/
inductive Action

instance : Named Action := ⟨nofun, nofun⟩

def letter : Node Action := .literal "a"

def ref : Node Action := .placeholder 0 (.text "r")

def either : Node Action := .choice [letter, ref]

/-- The letter, where neither it nor what the placeholder stands for is found. -/
def node : Node Action := .exclusion letter either

def perform : Action → Value Action → ActionResult Action := nofun

def workshop : Workshop Action :=
  (Workshop.new perform).run [.declare (.text "r"), .build (.literal (.text "a")),
    .build (.choice [.node letter, .node ref]),
    .build (.exclusion (.node letter) (.node either))]

theorem isReached : workshop.IsReached := by
  refine .step (.build (.exclusion (.node letter) (.node either)))
    (.step (.build (.choice [.node letter, .node ref])) (.step (.build (.literal (.text "a")))
      (.step (.declare (.text "r")) (.new perform) (.text _)) ?_) ?_) ?_
  · exact ⟨fun v hv => List.mem_singleton.mp hv ▸ .text _, nofun⟩
  · refine ⟨fun v hv => ?_, nofun⟩
    rcases List.mem_pair.mp hv with rfl | rfl
    · exact .node List.mem_cons_self
    · exact .node (.tail _ List.mem_cons_self)
  · refine ⟨fun v hv => ?_, nofun⟩
    rcases List.mem_pair.mp hv with rfl | rfl
    · exact .node (.tail _ List.mem_cons_self)
    · exact .node List.mem_cons_self

theorem run_keeps_answers_unmarked :
    workshop.IsReached ∧ workshop.context.ParsesSound ∧ node ∈ workshop.nodes ∧
      attempt workshop.context 4 node "a" 0 = .ok (.failed
        (.leaf (.excluded "Choice(Literal('a'), Recursion(r, unresolved))") 0 [])) ∧
      RunSheds Attempt.Sheds (attempt workshop.context 4 node "a" 0)
        (attempt (workshop.run [.resolve 0 (.text "r") (.node letter)]).context 4 node "a" 0) := by
  have hparses : workshop.context.ParsesSound := nofun
  have hnode : node ∈ workshop.nodes := List.mem_cons_self
  have hmarked : attempt workshop.context 4 node "a" 0 = .ok (.failed
      (.leaf (.excluded "Choice(Literal('a'), Recursion(r, unresolved))") 0 [])) := rfl
  refine ⟨isReached, hparses, hnode, hmarked, ?_⟩
  exact (Workshop.run_keeps_answers workshop _).2 isReached hparses node hnode 4 "a" 0
    fun t => by rw [hmarked]; nofun

end Unfinished

end Peg
