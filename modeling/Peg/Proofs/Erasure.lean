import Peg.Proofs.Exhaustion
import Peg.Proofs.Safety

/-!
# Values never decide what matches

A capture labels a result and an action changes it, and neither has a say in what is
matched. Take them all away: `Node.erase` puts the item of a capture or an action in its
place, in the trees and in the targets of the placeholders. The results of the two
grammars have nothing to do with each other, and yet they match the same texts up to the
same positions, fail for the same reasons at the same positions, and have the same faults,
as long as no action raises an error.

The proof runs the two side by side. What they share is the way an outcome goes on
(`Outcome.SameCourse`): where a success stops, what a failure complains of, which fault it
is. The loops look at nothing else, so they make the same rounds and try the same
alternatives. Where the original grammar has a capture or an action it goes one level
down while the other stays, so the levels of the two drift apart; it is enough that the
erased one has no fewer left.

Errors differ in the labels that captures leave, and in the description of an excluded
pattern, which shows its captures and actions. `ParseError.Alike` leaves these out.
-/

namespace Peg

variable {α β γ β' γ' ε ε' δ δ' : Type}

/-! ## Erasure -/

mutual

/-- The node without its captures and actions. -/
def Node.erase : Node α → Node α
  | .sequence items => .sequence (Node.eraseAll items)
  | .choice alternatives => .choice (Node.eraseAll alternatives)
  | .many item => .many item.erase
  | .exclusion item forbidden => .exclusion item.erase forbidden.erase
  | .capture _ item => item.erase
  | .action item _ => item.erase
  | .bare => .bare
  | .literal t => .literal t
  | .range low high => .range low high
  | .placeholder id name => .placeholder id name
  | .empty shared => .empty shared
  | .stray value => .stray value
  | .looseLiteral text => .looseLiteral text
  | .looseRange low high => .looseRange low high

def Node.eraseAll : List (Node α) → List (Node α)
  | [] => []
  | n :: ns => n.erase :: Node.eraseAll ns

end

theorem Node.eraseAll_eq_map (ns : List (Node α)) : Node.eraseAll ns = ns.map Node.erase := by
  induction ns with
  | nil => rfl
  | cons n ns ih => rw [Node.eraseAll, ih, List.map_cons]

def Bindings.erase (b : Bindings α) : Bindings α :=
  ⟨b.entries.map fun e => (e.1, e.2.erase)⟩

/-- The grammar without its captures and actions. -/
def Context.erase (ctx : Context α) : Context α := { ctx with bindings := ctx.bindings.erase }

@[simp] theorem Bindings.target?_erase (b : Bindings α) (id : Nat) :
    b.erase.target? id = (b.target? id).map Node.erase := by
  obtain ⟨entries⟩ := b
  simp only [target?, erase]
  induction entries with
  | nil => rfl
  | cons e entries ih =>
      rw [List.map_cons, List.lookup_cons, List.lookup_cons, ih]
      cases id == e.1 <;> rfl

@[simp] theorem Bindings.isBound_erase (b : Bindings α) : b.erase.isBound = b.isBound := by
  funext id
  rw [isBound, isBound, target?_erase, Option.isSome_map]

/-! ### Descriptions of what is left -/

/-- A part of an erased node is what is left of a node of the tree. -/
theorem Node.exists_part_of_erase : ∀ n : Node α, ∀ m ∈ n.erase.parts,
    ∃ k, n.Contains k ∧ m = k.erase
  | .sequence items, m, h | .choice items, m, h => by
      rw [Node.erase, Node.parts, Node.eraseAll_eq_map] at h
      obtain ⟨k, hk, rfl⟩ := List.mem_map.mp h
      exact ⟨k, .single hk, rfl⟩
  | .many item, m, h => by
      obtain rfl : m = item.erase := by simpa [Node.erase, Node.parts] using h
      exact ⟨item, .single (by simp [Node.parts]), rfl⟩
  | .exclusion item forbidden, m, h => by
      rcases (by simpa [Node.erase, Node.parts] using h : m = item.erase ∨ m = forbidden.erase)
        with rfl | rfl
      · exact ⟨item, .single (by simp [Node.parts]), rfl⟩
      · exact ⟨forbidden, .single (by simp [Node.parts]), rfl⟩
  | .capture _ item, m, h | .action item _, m, h => by
      rw [Node.erase] at h
      obtain ⟨k, hk, rfl⟩ := Node.exists_part_of_erase item m h
      exact ⟨k, .head (by simp [Node.parts]) hk, rfl⟩
  | .bare, _, h | .literal _, _, h | .range .., _, h | .placeholder .., _, h | .empty _, _, h
  | .stray _, _, h | .looseLiteral _, _, h | .looseRange .., _, h => by
      simp [Node.erase, Node.parts] at h

section Described

variable [Named α]

theorem Node.isBuilt_erase : ∀ n : Node α, (∀ k, n.Contains k → k.IsBuilt) → n.erase.IsBuilt
  | .capture _ item, h | .action item _, h => by
      rw [Node.erase]
      exact Node.isBuilt_erase item fun k hk => h k (.head (by simp [Node.parts]) hk)
  | .sequence _, _ | .choice _, _ | .many _, _ | .exclusion .., _ => by
      rw [Node.erase]
      trivial
  | .bare, h | .literal _, h | .range .., h | .placeholder .., h | .empty _, h | .stray _, h
  | .looseLiteral _, h | .looseRange .., h => by
      rw [Node.erase]
      exact h _ .refl

/-- What is left of a tree of the builders has a description. -/
theorem describe_erase (isBound : Nat → Bool) (n : Node α) (depth : Int)
    (h : ∀ k, n.Contains k → k.IsBuilt) : ∃ t, n.erase.describe isBound depth = .ok t := by
  refine describe_ok isBound n.erase depth fun m hm => ?_
  obtain ⟨k, hk, rfl⟩ : ∃ k, n.Contains k ∧ m = k.erase := by
    induction hm with
    | refl => exact ⟨n, .refl, rfl⟩
    | tail _ hpart ih =>
        obtain ⟨k, hk, rfl⟩ := ih
        obtain ⟨k', hk', rfl⟩ := Node.exists_part_of_erase k _ hpart
        exact ⟨k', hk.trans hk', rfl⟩
  exact Node.isBuilt_erase k fun k' hk' => h k' (hk.trans hk')

end Described

/-! ## One course for two matches -/

/-- The errors are the same but for their labels and for how they describe what is
excluded. -/
inductive ParseError.Alike : ParseError α → ParseError α → Prop
  | mismatch {expected found pos labels labels'} :
    Alike (.leaf (.mismatch expected found) pos labels)
      (.leaf (.mismatch expected found) pos labels')
  | excluded {forbidden forbidden' pos labels labels'} :
    Alike (.leaf (.excluded forbidden) pos labels) (.leaf (.excluded forbidden') pos labels')
  | exhausted {es es' pos labels labels'} : List.Forall₂ Alike es es' →
    Alike (.exhausted es pos labels) (.exhausted es' pos labels')

/-- The outcomes are the same but for the results, with errors that correspond. The only
faults they may share are those of placeholders. -/
inductive Outcome.SameCourse (F : ε → ε' → Prop) : Outcome ε β → Outcome ε' β' → Prop
  | success {v v' stop} : SameCourse F (.success v stop) (.success v' stop)
  | failure {e e'} : F e e' → SameCourse F (.failure e) (.failure e')
  | unresolved {t} : SameCourse F (.fault (.unresolved t)) (.fault (.unresolved t))
  | leftRecursion {t pos} :
    SameCourse F (.fault (.leftRecursion t pos)) (.fault (.leftRecursion t pos))

namespace Outcome.SameCourse

variable {F : ε → ε' → Prop} {G : δ → δ' → Prop} {o : Outcome ε β} {o' : Outcome ε' β'}

theorem andThen {next : β → Int → Outcome ε γ} {next' : β' → Int → Outcome ε' γ'}
    (h : o.SameCourse F o')
    (hnext : ∀ v v' stop, o = .success v stop → (next v stop).SameCourse F (next' v' stop)) :
    (o.andThen next).SameCourse F (o'.andThen next') := by
  cases h with
  | success => exact hnext _ _ _ rfl
  | failure hF => exact .failure hF
  | unresolved => exact .unresolved
  | leftRecursion => exact .leftRecursion

theorem map {f : β → γ} {f' : β' → γ'} (h : o.SameCourse F o') :
    (o.map f).SameCourse F (o'.map f') := by
  cases h with
  | success => exact .success
  | failure hF => exact .failure hF
  | unresolved => exact .unresolved
  | leftRecursion => exact .leftRecursion

theorem mapError {f : ε → δ} {f' : ε' → δ'} (h : o.SameCourse F o')
    (hf : ∀ e e', F e e' → G (f e) (f' e')) : (o.mapError f).SameCourse G (o'.mapError f') := by
  cases h with
  | success => exact .success
  | failure hF => exact .failure (hf _ _ hF)
  | unresolved => exact .unresolved
  | leftRecursion => exact .leftRecursion

end Outcome.SameCourse

/-! ### The loops -/

theorem matchAll_sameCourse {step step' : Node α → Int → Match α} {items : List (Node α)}
    {pos : Int} (hstep : ∀ n p, (n, p) ∈ triedAll step items pos →
      (step n p).SameCourse ParseError.Alike (step' n.erase p)) :
    (matchAll step items pos).SameCourse ParseError.Alike
      (matchAll step' (Node.eraseAll items) pos) := by
  induction items generalizing pos with
  | nil => exact .success
  | cons n ns ih =>
      rw [Node.eraseAll, matchAll, matchAll]
      refine (hstep n pos List.mem_cons_self).andThen fun v v' stop hv => ?_
      refine (ih fun m p hm => hstep m p ?_).map
      rw [triedAll, hv]
      exact List.mem_cons_of_mem _ hm

theorem matchFirst_sameCourse {step step' : Node α → Match α} {alternatives : List (Node α)}
    (hstep : ∀ n ∈ triedFirst step alternatives,
      (step n).SameCourse ParseError.Alike (step' n.erase)) :
    (matchFirst step alternatives).SameCourse (List.Forall₂ ParseError.Alike)
      (matchFirst step' (Node.eraseAll alternatives)) := by
  induction alternatives with
  | nil => exact .failure .nil
  | cons n ns ih =>
      have hn := hstep n List.mem_cons_self
      rw [Node.eraseAll, matchFirst, matchFirst]
      generalize step' n.erase = o' at hn ⊢
      generalize ho : step n = o at hn ⊢
      cases hn with
      | success => exact .success
      | unresolved => exact .unresolved
      | leftRecursion => exact .leftRecursion
      | failure hF =>
          refine (ih fun m hm => hstep m ?_).mapError fun es es' hes => .cons hF hes
          rw [triedFirst, ho]
          exact List.mem_cons_of_mem _ hm

theorem matchMany_sameCourse {step step' : Int → Match α} {room : Nat} {pos : Int}
    (hstep : ∀ p ∈ triedMany step room pos,
      (step p).SameCourse ParseError.Alike (step' p)) :
    (matchMany step room pos).SameCourse ParseError.Alike (matchMany step' room pos) := by
  induction room generalizing pos with
  | zero => exact .success
  | succ room ih =>
      have hs := hstep pos List.mem_cons_self
      have hlater : ∀ v stop, step pos = .success v stop → stop ≠ pos →
          ∀ p ∈ triedMany step room stop, p ∈ triedMany step (room + 1) pos := by
        intro v stop hv hmoves p hp
        rw [triedMany, hv]
        exact List.mem_cons_of_mem _ (by simpa [hmoves] using hp)
      rw [matchMany, matchMany]
      generalize step' pos = o' at hs ⊢
      generalize ho : step pos = o at hs ⊢
      cases hs with
      | failure => exact .success
      | unresolved => exact .unresolved
      | leftRecursion => exact .leftRecursion
      | @success v v' stop =>
          simp only []
          by_cases hrests : stop = pos
          · rw [if_pos hrests, if_pos hrests]
            exact .success
          · rw [if_neg hrests, if_neg hrests]
            exact (ih fun p hp => hstep p (hlater v stop ho hrests p hp)).map

/-! ## Runs that end by themselves -/

variable [Named α]

/-- A run whose limit is out of reach, and in which no action raises an error. -/
structure Frame.IsCalm (ctx : Context α) (f : Frame α) : Prop where
  limit : ∀ g, f.Visits ctx g → g.limit ≠ 0
  returns : ∀ g limit act v stop, f.Visits ctx g → g.Performs ctx limit act v stop →
    ctx.Returns limit act v

/-- Where every action gives a value, whatever it is given, a run is calm unless it meets its
limit. -/
theorem Frame.isCalm_of_value {ctx : Context α} {f : Frame α}
    (hvalue : ∀ item act v, ctx.bindings.Reaches f.node (.action item act) →
      ∃ w, ctx.perform act v = .value w)
    (hlimit : f.outcome ctx ≠ .fault .tooDeep) : f.IsCalm ctx where
  limit g hg hzero := hlimit (hg.fault (outcome_of_limit hzero))
  returns g limit act v stop hg hact := by
    obtain ⟨item, hnode⟩ := hact.node_eq
    obtain ⟨w, hw⟩ := hvalue item act v (hnode ▸ hg.reaches)
    rw [Context.Returns, hw]
    trivial

/-- A grammar that keeps inside its text, and whose actions always give values, has calm runs
on any text and from any position. -/
theorem exists_isCalm (ctx : Context α) (node : Node α) (text : Text) (pos : Int)
    (hinside : ctx.bindings.KeepsInside node)
    (hvalue : ∀ item act v, ctx.bindings.Reaches node (.action item act) →
      ∃ w, ctx.perform act v = .value w) :
    ∃ levels, ∀ limit ≥ levels, (Frame.top limit node text pos).IsCalm ctx := by
  obtain ⟨levels, hlevels⟩ := exists_levels_above ctx node text pos hinside
    (fun item act v r hact hr => by
      obtain ⟨w, hw⟩ := hvalue item act v hact
      cases hr.symm.trans hw)
    fun r hr => by
      cases hr with
      | own hact hp | inside hact hp _ =>
          obtain ⟨w, hw⟩ := hvalue _ _ _ hact
          cases hp.symm.trans hw
  exact ⟨levels, fun limit hlimit => Frame.isCalm_of_value hvalue (hlevels limit hlimit)⟩

theorem Frame.IsCalm.started {ctx : Context α} {f g : Frame α} (h : f.IsCalm ctx)
    (hg : f.Starts ctx g) : g.IsCalm ctx where
  limit k hk := h.limit k (.head hg hk)
  returns k limit act v stop hk := h.returns k limit act v stop (.head hg hk)

/-! ## Two matches side by side -/

section Matches

variable {ctx : Context α} {limit limit' : Nat} {input : Input} {active : Active}
  {node : Node α} {pos : Int}

/-- No match of what the builders make passes the end of the text. -/
theorem keepsInside_of_isBuilt (h : ∀ n, ctx.bindings.Reaches node n → n.IsBuilt) :
    ctx.bindings.KeepsInside node := by
  intro n hn htuple
  have hbuilt := h n hn
  cases n <;> first | exact htuple | exact hbuilt

theorem matchLeaf_sameCourse (hleaf : node.IsLeaf) (hbuilt : node.IsBuilt) (hpos : 0 ≤ pos) :
    (matchNode ctx (limit + 1) input active node pos).SameCourse ParseError.Alike
      (matchNode ctx.erase (limit' + 1) input active node.erase pos) := by
  have hsame : matchNode ctx.erase (limit' + 1) input active node.erase pos =
      matchNode ctx (limit + 1) input active node pos := by
    cases node <;> first | exact hleaf.elim | exact hbuilt.elim | rfl
  have hfault : (matchNode ctx (limit + 1) input active node pos).Meets (fun _ stop => 0 ≤ stop)
      (fun _ => True) (fun _ => False) := matchLeaf_of_isBuilt hleaf hbuilt hpos
  rw [hsame]
  cases ho : matchNode ctx (limit + 1) input active node pos with
  | success v stop => exact .success
  | failure e =>
      obtain ⟨expected, found, rfl⟩ := matchLeaf_failure ho hleaf
      exact .failure .mismatch
  | fault f =>
      rw [ho] at hfault
      exact hfault.elim

omit [Named α] in
theorem failShowing_sameCourse {d d' : Except Fault Text} (hd : ∃ t, d = .ok t)
    (hd' : ∃ t, d' = .ok t) :
    (failShowing pos d .excluded : Match α).SameCourse ParseError.Alike
      (failShowing pos d' .excluded : Match α) := by
  obtain ⟨t, rfl⟩ := hd
  obtain ⟨t', rfl⟩ := hd'
  exact .failure .excluded

theorem shownAs_sameCourse {id : Nat} {name : Value α} {fault : Text → Fault}
    (hbuilt : (Node.placeholder id name).IsBuilt)
    (hfault : ∀ t, (Outcome.fault (fault t) : Match α).SameCourse ParseError.Alike
      (.fault (fault t) : Match α)) :
    (ctx.shownAs id name fault).SameCourse ParseError.Alike
      (ctx.erase.shownAs id name fault) := by
  obtain ⟨t, ht⟩ := hbuilt ctx.bindings.isBound
  have ht' : (Node.placeholder id name).describe ctx.erase.bindings.isBound 0 = .ok t := by
    rw [Context.erase, Bindings.isBound_erase, ht]
  rw [Context.shownAs, Context.shownAs, ht, ht']
  exact hfault t

end Matches

omit [Named α] in
/-- What a capture adds is left out of the comparison. -/
theorem Outcome.SameCourse.captured {o o' : Match α} (h : o.SameCourse ParseError.Alike o')
    (label : Value α) : ((o.map (Value.captured label)).mapError
      (ParseError.addLabel label)).SameCourse ParseError.Alike o' := by
  cases h with
  | success => exact .success
  | unresolved => exact .unresolved
  | leftRecursion => exact .leftRecursion
  | failure halike =>
      refine .failure ?_
      cases halike with
      | mismatch => exact .mismatch
      | excluded => exact .excluded
      | exhausted hes => exact .exhausted hes

/-- A calm match and the match of what is left of its node take the same course, if no
fewer levels are left for the latter. -/
theorem matchNode_sameCourse (ctx : Context α) (input : Input) (limit : Nat) :
    ∀ (limit' : Nat) (active : Active) (node : Node α) (pos : Int), limit ≤ limit' →
      (∀ n, ctx.bindings.Reaches node n → n.IsBuilt) → 0 ≤ pos →
      (⟨limit, input, active, node, pos⟩ : Frame α).IsCalm ctx →
      (matchNode ctx limit input active node pos).SameCourse ParseError.Alike
        (matchNode ctx.erase limit' input active node.erase pos) := by
  induction limit with
  | zero => intro limit' active node pos _ _ _ hcalm; exact absurd rfl (hcalm.limit _ .refl)
  | succ limit ih =>
      intro limit' active node pos hle hbuilt hpos hcalm
      -- The two are at matches that correspond wherever the first one starts another.
      have hstarted : ∀ {n : Node α} {p : Int} {active' : Active} (levels : Nat),
          limit ≤ levels →
          (⟨limit + 1, input, active, node, pos⟩ : Frame α).Starts ctx
            ⟨limit, input, active', n, p⟩ →
          (matchNode ctx limit input active' n p).SameCourse ParseError.Alike
            (matchNode ctx.erase levels input active' n.erase p) := by
        intro n p active' levels hlevels hstart
        have hwithin := hstart.pos_le (keepsInside_of_isBuilt hbuilt)
        exact ih levels active' n p hlevels (fun m hm => hbuilt m (.head hstart.leads hm))
          (by have := hwithin.1; simp at this; omega) (hcalm.started hstart)
      obtain ⟨limit', rfl⟩ : ∃ k, limit' = k + 1 := ⟨limit' - 1, by omega⟩
      have hlevels : limit ≤ limit' := by omega
      cases node with
      | sequence items =>
          rw [Node.erase, matchNode_sequence, matchNode_sequence]
          exact (matchAll_sameCourse fun n p hn => hstarted _ hlevels (.item hn)).map
      | choice alternatives =>
          rw [Node.erase, matchNode_choice, matchNode_choice]
          exact (matchFirst_sameCourse fun n hn => hstarted _ hlevels (.alternative hn)).mapError
            fun es es' hes => .exhausted hes
      | many item =>
          rw [Node.erase, matchNode_many, matchNode_many]
          exact (matchMany_sameCourse fun p hp => hstarted _ hlevels (.round hp)).map
      | exclusion item forbidden =>
          rw [Node.erase, matchNode_exclusion, matchNode_exclusion]
          refine (hstarted _ hlevels .base).andThen fun v v' stop hitem => ?_
          have hforbidden := hstarted _ hlevels (.forbidden hitem)
          generalize matchNode ctx limit input active forbidden pos = o at hforbidden ⊢
          generalize matchNode ctx.erase limit' input active forbidden.erase pos = o'
            at hforbidden ⊢
          cases hforbidden with
          | failure => exact .success
          | unresolved => exact .unresolved
          | leftRecursion => exact .leftRecursion
          | success =>
              have htree : ∀ k, forbidden.Contains k → k.IsBuilt := fun k hk =>
                hbuilt k (.head (.part (by simp [Node.parts]))
                  (Relation.ReflTransGen.mono (fun _ _ hpart => .part hpart) _ _ hk))
              exact failShowing_sameCourse (describe_ok _ _ _ htree) (describe_erase _ _ _ htree)
      | capture label item =>
          rw [Node.erase, matchNode_capture]
          exact (hstarted _ (by omega) .captured).captured label
      | action item act =>
          have hitem := hstarted (limit' + 1) (by omega) .argument
          rw [Node.erase, matchNode_action]
          generalize ho : matchNode ctx limit input active item pos = o at hitem ⊢
          generalize matchNode ctx.erase (limit' + 1) input active item.erase pos = o' at hitem ⊢
          cases hitem with
          | failure halike => exact .failure halike
          | unresolved => exact .unresolved
          | leftRecursion => exact .leftRecursion
          | @success v v' stop =>
              have hreturns := hcalm.returns _ _ _ _ _ .refl (.intro ho)
              obtain ⟨w, hw⟩ := hreturns.finish pos stop
              rw [Outcome.andThen, hw]
              exact .success
      | placeholder id name =>
          have hnode := hbuilt _ .refl
          rw [Node.erase]
          cases ht : ctx.bindings.target? id with
          | none =>
              have ht' : ctx.erase.bindings.target? id = none := by simp [Context.erase, ht]
              rw [matchNode_unbound ht, matchNode_unbound ht']
              exact shownAs_sameCourse hnode fun _ => .unresolved
          | some target =>
              have ht' : ctx.erase.bindings.target? id = some target.erase := by
                simp [Context.erase, ht]
              by_cases hactive : (id, pos) ∈ active
              · rw [matchNode_reentered ht hactive, matchNode_reentered ht' hactive]
                exact shownAs_sameCourse hnode fun _ => .leftRecursion
              · rw [matchNode_entered ht hactive, matchNode_entered ht' hactive]
                exact hstarted _ hlevels (.target ht hactive)
      | bare | literal _ | range _ _ | empty _ | stray _ | looseLiteral _ | looseRange _ _ =>
          exact matchLeaf_sameCourse trivial (hbuilt _ .refl) hpos

/-! ## Attempts -/

/-- The answers of two attempts are the same but for the results. -/
inductive SameAnswer : Except (Halt α) (Attempt α) → Except (Halt α) (Attempt α) → Prop
  | matched {v v' consumed} : SameAnswer (.ok (.matched v consumed)) (.ok (.matched v' consumed))
  | failed {e e'} : e.Alike e' → SameAnswer (.ok (.failed e)) (.ok (.failed e'))
  | unresolved {t} : SameAnswer (.error (.fault (.unresolved t))) (.error (.fault (.unresolved t)))
  | leftRecursion {t pos} : SameAnswer (.error (.fault (.leftRecursion t pos)))
      (.error (.fault (.leftRecursion t pos)))

/-- Captures and actions have no say in what is matched: without them an attempt consumes
as much, or fails for the same reasons at the same positions, or has the same fault. -/
theorem attempt_erase (ctx : Context α) (node : Node α) (text : Text) (pos : Int)
    {limit limit' : Nat} (hle : limit ≤ limit')
    (hbuilt : ∀ n, ctx.bindings.Reaches node n → n.IsBuilt) (hpos : 0 ≤ pos)
    (hcalm : (Frame.top limit node text pos).IsCalm ctx) :
    SameAnswer (attempt ctx limit node text pos)
      (attempt ctx.erase limit' node.erase text pos) := by
  have hcourse := matchNode_sameCourse ctx (.ofText text) limit limit' [] node pos hle hbuilt hpos
    hcalm
  rw [attempt, attempt]
  generalize matchNode ctx limit (.ofText text) [] node pos = o at hcourse ⊢
  generalize matchNode ctx.erase limit' (.ofText text) [] node.erase pos = o' at hcourse ⊢
  cases hcourse with
  | success => exact .matched
  | failure halike => exact .failed halike
  | unresolved => exact .unresolved
  | leftRecursion => exact .leftRecursion

namespace Trees

/-- The trees of `(a(b))` are lost without the actions, and the length is the same. -/
theorem attempt_erase_nested :
    (Frame.top 20 ref "(a(b))" 0).IsCalm context ∧
      attempt context 20 ref "(a(b))" 0 =
        .ok (.matched (.list [.int 1, .list [.int 1]]) 6) ∧
      ∃ v, attempt context.erase 20 ref.erase "(a(b))" 0 = .ok (.matched v 6) := by
  have hmatched := attempt_nested
  have hcalm : (Frame.top 20 ref "(a(b))" 0).IsCalm context :=
    Frame.isCalm_of_value (fun _ act v _ => perform_value act v) fun hdeep => by
      rw [attempt, ← Frame.outcome_top, hdeep] at hmatched
      cases hmatched
  have hsame := attempt_erase context ref "(a(b))" 0 (Nat.le_refl 20) isRegular.built (by decide)
    hcalm
  rw [hmatched] at hsame
  cases hanswer : attempt context.erase 20 ref.erase "(a(b))" 0 with
  | ok a => rw [hanswer] at hsame; cases hsame; exact ⟨hcalm, hmatched, _, rfl⟩
  | error h => rw [hanswer] at hsame; cases hsame

end Trees

end Peg
