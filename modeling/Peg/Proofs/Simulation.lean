import Peg.Proofs.Step

/-!
# Two matches side by side

Many laws compare two matches of one node: under more bindings, at another offset, with
more levels. The two go through the same steps, and at each step they stand in
corresponding places. What corresponds differs from law to law, but how it is carried
through the nodes does not, so it is carried here once.

`Outcome.Related` compares two ends. Results are the same and stops correspond by `I`,
errors by `F` and faults by `X`. Some faults of the first match excuse it: where it ends
in one of those (`E`), nothing is said about the second.

`matchNode_related_succ` is the step: what corresponds for the parts of a node corresponds
for the node. It is asked of `I` that a match of the one moves on exactly if that of the
other does, and of `F` that it outlives what a choice and a capture do to errors. The
leaves, the placeholders, the actions and the words for what is excluded are left to
whoever compares. For placeholders that have the same targets in both matches, as far as
they have one in the first, `matchNode_placeholder_related` leaves less to do.
-/

namespace Peg

variable {α β γ ε ε' δ δ' : Type}

/-- The ends of two matches correspond, unless the first is excused. -/
inductive Outcome.Related (I : Int → Int → Prop) (F : ε → ε' → Prop) (X : Fault → Fault → Prop)
    (E : Fault → Prop) : Outcome ε β → Outcome ε' β → Prop
  | success {v : β} {stop stop' : Int} :
    I stop stop' → Related I F X E (.success v stop) (.success v stop')
  | failure {e : ε} {e' : ε'} : F e e' → Related I F X E (.failure e) (.failure e')
  | fault {f f' : Fault} : X f f' → Related I F X E (.fault f) (.fault f')
  | excused {f : Fault} {o : Outcome ε' β} : E f → Related I F X E (.fault f) o

section Related

variable {I : Int → Int → Prop} {X : Fault → Fault → Prop} {E : Fault → Prop}

namespace Outcome.Related

theorem refl {F : ε → ε → Prop} (hI : ∀ p, I p p) (hF : ∀ e, F e e) (hX : ∀ f, X f f)
    (o : Outcome ε β) : Related I F X E o o := by
  cases o with
  | success v stop => exact .success (hI stop)
  | failure e => exact .failure (hF e)
  | fault f => exact .fault (hX f)

variable {F : ε → ε' → Prop} {G : δ → δ' → Prop}

theorem andThen {o : Outcome ε β} {o' : Outcome ε' β} {next : β → Int → Outcome ε γ}
    {next' : β → Int → Outcome ε' γ} (h : Related I F X E o o')
    (hnext : ∀ v stop stop', I stop stop' → Related I F X E (next v stop) (next' v stop')) :
    Related I F X E (o.andThen next) (o'.andThen next') := by
  cases h with
  | success hI => exact hnext _ _ _ hI
  | failure hF => exact .failure hF
  | fault hX => exact .fault hX
  | excused hE => exact .excused hE

theorem map {o : Outcome ε β} {o' : Outcome ε' β} {f : β → γ} (h : Related I F X E o o') :
    Related I F X E (o.map f) (o'.map f) := by
  cases h with
  | success hI => exact .success hI
  | failure hF => exact .failure hF
  | fault hX => exact .fault hX
  | excused hE => exact .excused hE

theorem mapError {o : Outcome ε β} {o' : Outcome ε' β} {f : ε → δ} {f' : ε' → δ'}
    (hf : ∀ e e', F e e' → G (f e) (f' e')) (h : Related I F X E o o') :
    Related I G X E (o.mapError f) (o'.mapError f') := by
  cases h with
  | success hI => exact .success hI
  | failure hF => exact .failure (hf _ _ hF)
  | fault hX => exact .fault hX
  | excused hE => exact .excused hE

end Outcome.Related

/-! ## The loops -/

variable {F : ParseError α → ParseError α → Prop}

theorem matchAll_related {step step' : Node α → Int → Match α} {items : List (Node α)}
    (hstep : ∀ n ∈ items, ∀ p p', I p p' → (step n p).Related I F X E (step' n p'))
    {pos pos' : Int} (hpos : I pos pos') :
    (matchAll step items pos).Related I F X E (matchAll step' items pos') := by
  induction items generalizing pos pos' with
  | nil => exact .success hpos
  | cons n ns ih =>
      rw [matchAll, matchAll]
      exact (hstep n (by simp) pos pos' hpos).andThen fun v stop stop' hstop =>
        (ih (fun m hm => hstep m (by simp [hm])) hstop).map

theorem matchFirst_related {step step' : Node α → Match α} {alternatives : List (Node α)}
    (hstep : ∀ n ∈ alternatives, (step n).Related I F X E (step' n)) :
    (matchFirst step alternatives).Related I (List.Forall₂ F) X E
      (matchFirst step' alternatives) := by
  induction alternatives with
  | nil => exact .failure .nil
  | cons n ns ih =>
      have hns := ih fun m hm => hstep m (by simp [hm])
      have hn := hstep n (by simp)
      rw [matchFirst, matchFirst]
      generalize step n = o at hn ⊢
      generalize step' n = o' at hn ⊢
      cases hn with
      | success hI => exact .success hI
      | failure hF => exact hns.mapError fun es es' hes => .cons hF hes
      | fault hX => exact .fault hX
      | excused hE => exact .excused hE

/-- Two loops make the same rounds if the one rests exactly where the other does. -/
theorem matchMany_related {step step' : Int → Match α}
    (hmoved : ∀ p p' q q', I p p' → I q q' → (q = p ↔ q' = p'))
    (hstep : ∀ p p', I p p' → (step p).Related I F X E (step' p')) (room : Nat)
    {pos pos' : Int} (hpos : I pos pos') :
    (matchMany step room pos).Related I F X E (matchMany step' room pos') := by
  induction room generalizing pos pos' with
  | zero => exact .success hpos
  | succ room ih =>
      have hs := hstep pos pos' hpos
      rw [matchMany, matchMany]
      generalize step pos = o at hs ⊢
      generalize step' pos' = o' at hs ⊢
      cases hs with
      | failure hF => exact .success hpos
      | fault hX => exact .fault hX
      | excused hE => exact .excused hE
      | @success v stop stop' hI =>
          have hrests := hmoved pos pos' stop stop' hpos hI
          simp only [hrests]
          split
          · exact .success hpos
          · exact (ih hI).map

end Related

/-! ## One level of two matches -/

variable [Named α] {I : Int → Int → Prop} {F : ParseError α → ParseError α → Prop}
  {X : Fault → Fault → Prop} {E : Fault → Prop}

section Levels

variable {ctx ctx' : Context α} {limit limit' : Nat} {input input' : Input}
  {active active' : Active} {pos pos' : Int}

/-- Two matches of a placeholder that has its target in both, unless it has none in the
first. -/
theorem matchNode_placeholder_related {id : Nat} {name : Value α}
    (hkept : ∀ target, ctx.bindings.target? id = some target →
      ctx'.bindings.target? id = some target)
    (hactive : (id, pos) ∈ active ↔ (id, pos') ∈ active')
    (hunbound : ctx.bindings.target? id = none →
      (ctx.shownAs id name .unresolved).Related I F X E
        (matchNode ctx' (limit' + 1) input' active' (.placeholder id name) pos'))
    (hreentered : (ctx.shownAs id name (.leftRecursion · pos)).Related I F X E
      (ctx'.shownAs id name (.leftRecursion · pos')))
    (hentered : ∀ target, ctx.bindings.target? id = some target →
      (matchNode ctx limit input ((id, pos) :: active) target pos).Related I F X E
        (matchNode ctx' limit' input' ((id, pos') :: active') target pos')) :
    (matchNode ctx (limit + 1) input active (.placeholder id name) pos).Related I F X E
      (matchNode ctx' (limit' + 1) input' active' (.placeholder id name) pos') := by
  cases ht : ctx.bindings.target? id with
  | none =>
      rw [matchNode_unbound ht]
      exact hunbound ht
  | some target =>
      have ht' := hkept target ht
      by_cases h : (id, pos) ∈ active
      · rw [matchNode_reentered ht h, matchNode_reentered ht' (hactive.mp h)]
        exact hreentered
      · rw [matchNode_entered ht h, matchNode_entered ht' fun h' => h (hactive.mpr h')]
        exact hentered target ht

theorem matchNode_related_succ {node : Node α} (hpos : I pos pos')
    (hroom : input.room pos = input'.room pos')
    (hmoved : ∀ p p' q q', I p p' → I q q' → (q = p ↔ q' = p'))
    (hexhausted : ∀ es es', List.Forall₂ F es es' →
      F (.exhausted es pos []) (.exhausted es' pos' []))
    (hlabel : ∀ e e' label, F e e' → F (e.addLabel label) (e'.addLabel label))
    (hexcluded : ∀ item forbidden, node = .exclusion item forbidden →
      (failShowing pos (forbidden.describe ctx.bindings.isBound Node.usualDepth)
        .excluded).Related I F X E
      (failShowing pos' (forbidden.describe ctx'.bindings.isBound Node.usualDepth) .excluded))
    (hleaf : node.IsLeaf → (matchNode ctx (limit + 1) input active node pos).Related I F X E
      (matchNode ctx' (limit' + 1) input' active' node pos'))
    (hpart : ∀ n ∈ node.parts, ∀ p p', I p p' →
      (matchNode ctx limit input active n p).Related I F X E
        (matchNode ctx' limit' input' active' n p'))
    (hplaceholder : ∀ id name, node = .placeholder id name →
      (matchNode ctx (limit + 1) input active node pos).Related I F X E
        (matchNode ctx' (limit' + 1) input' active' node pos'))
    (hact : ∀ item act v stop stop', node = .action item act → I stop stop' →
      (ctx.finish limit act v pos stop).Related I F X E
        (ctx'.finish limit' act v pos' stop')) :
    (matchNode ctx (limit + 1) input active node pos).Related I F X E
      (matchNode ctx' (limit' + 1) input' active' node pos') := by
  cases node with
  | sequence items =>
      rw [matchNode_sequence, matchNode_sequence]
      exact (matchAll_related hpart hpos).map
  | choice alternatives =>
      rw [matchNode_choice, matchNode_choice]
      exact (matchFirst_related fun n hn => hpart n hn pos pos' hpos).mapError hexhausted
  | many item =>
      rw [matchNode_many, matchNode_many, hroom]
      exact (matchMany_related hmoved (hpart item (by simp [Node.parts])) _ hpos).map
  | exclusion item forbidden =>
      have hforbidden := hpart forbidden (by simp [Node.parts]) pos pos' hpos
      rw [matchNode_exclusion, matchNode_exclusion]
      refine (hpart item (by simp [Node.parts]) pos pos' hpos).andThen fun v stop stop' hstop => ?_
      generalize matchNode ctx limit input active forbidden pos = o at hforbidden ⊢
      generalize matchNode ctx' limit' input' active' forbidden pos' = o' at hforbidden ⊢
      cases hforbidden with
      | success hI => exact hexcluded item forbidden rfl
      | failure hF => exact .success hstop
      | fault hX => exact .fault hX
      | excused hE => exact .excused hE
  | capture label item =>
      rw [matchNode_capture, matchNode_capture]
      exact (hpart item (by simp [Node.parts]) pos pos' hpos).map.mapError fun e e' =>
        hlabel e e' label
  | action item act =>
      rw [matchNode_action, matchNode_action]
      exact (hpart item (by simp [Node.parts]) pos pos' hpos).andThen
        fun v stop stop' hstop => hact item act v stop stop' rfl hstop
  | placeholder id name => exact hplaceholder id name rfl
  | bare | literal _ | range _ _ | empty _ | stray _ | looseLiteral _ | looseRange _ _ =>
      exact hleaf trivial

end Levels

end Peg
