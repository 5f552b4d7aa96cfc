import Peg.Proofs.Simulation
import Peg.Proofs.Termination
import Peg.Proofs.Yield

/-!
# Matching at an offset

A match looks only at what comes from its start on. To match a node behind a text `u` is
to match it at the beginning of what follows, with every position larger by the length of
`u`: the stop of a success, the positions in the tree of errors of a failure, and the
position that a report of left recursion names. What errors say about the grammar and
about the text found there is the same.

The two matches are compared by `matchNode_related_succ`. Nothing is asked of the node or
of its actions: an action is given the same result in both matches, and a parse that it
starts is of a text of its own. Positions in front of a text do count from its end, so the
comparison is one of positions from zero on, and no match leaves these.
-/

namespace Peg

variable {α : Type}

/-! ## Moving positions -/

namespace ParseError

mutual

/-- The error with every position in it larger by `d`. -/
def shift (d : Int) : ParseError α → ParseError α
  | leaf reason pos labels => leaf reason (pos + d) labels
  | exhausted children pos labels => exhausted (shiftAll d children) (pos + d) labels

def shiftAll (d : Int) : List (ParseError α) → List (ParseError α)
  | [] => []
  | e :: es => e.shift d :: shiftAll d es

end

theorem shiftAll_eq_map (d : Int) (es : List (ParseError α)) :
    shiftAll d es = es.map (shift d) := by
  induction es with
  | nil => rw [shiftAll, List.map_nil]
  | cons e es ih => rw [shiftAll, ih, List.map_cons]

theorem shift_addLabel (d : Int) (e : ParseError α) (label : Value α) :
    (e.addLabel label).shift d = (e.shift d).addLabel label := by
  cases e with
  | leaf reason pos labels => rw [addLabel, shift, shift, addLabel]
  | exhausted children pos labels => rw [addLabel, shift, shift, addLabel]

/-- What an error says does not depend on where it says it. -/
@[simp] theorem message_shift (d : Int) (e : ParseError α) : (e.shift d).message = e.message := by
  cases e with
  | leaf reason pos labels => rw [shift, message, message]
  | exhausted children pos labels =>
      rw [shift, message, message, shiftAll_eq_map, List.length_map]

@[simp] theorem kind_shift (d : Int) (e : ParseError α) : (e.shift d).kind = e.kind := by
  cases e <;> rw [shift, kind, kind]

@[simp] theorem labels_shift (d : Int) (e : ParseError α) : (e.shift d).labels = e.labels := by
  cases e <;> rw [shift, labels, labels]

@[simp] theorem pos_shift (d : Int) (e : ParseError α) : (e.shift d).pos = e.pos + d := by
  cases e <;> rw [shift, pos, pos]

@[simp] theorem children_shift (d : Int) (e : ParseError α) :
    (e.shift d).children = e.children.map (shift d) := by
  cases e with
  | leaf reason pos labels => rw [shift, children, children, List.map_nil]
  | exhausted children pos labels => rw [shift, ParseError.children, ParseError.children,
      shiftAll_eq_map]

end ParseError

/-- The fault with the position in it, if there is one, larger by `d`. -/
def Fault.shift (d : Int) : Fault → Fault
  | leftRecursion placeholder pos => leftRecursion placeholder (pos + d)
  | f => f

/-- The answer with every position larger by `d`; a length consumed is no position. -/
def Attempt.shift (d : Int) : Attempt α → Attempt α
  | matched v consumed => matched v consumed
  | failed e => failed (e.shift d)

/-- The end of a run as it is with the text `u` in front. -/
def Halt.shift (u : Text) : Halt α → Halt α
  | refused e text => refused (e.shift u.length) (u ++ text)
  | fault f => fault (f.shift u.length)

/-! ## What follows a text -/

section Texts

variable {u v : Text} {p q : Int}

theorem Text.anchor_append (hp : 0 ≤ p) :
    anchor (u ++ v).length (p + u.length) = u.length + anchor v.length p := by
  rw [anchor_of_nonneg (by omega), anchor_of_nonneg hp, List.length_append]
  omega

theorem Text.slice_behind (hp : 0 ≤ p) (hq : 0 ≤ q) :
    (u ++ v).slice (p + u.length) (q + u.length) = v.slice p q := by
  rw [slice, slice, anchor_append hp, anchor_append hq, List.take_length_add_append,
    List.drop_length_add_append]

theorem Text.at?_behind (hp : 0 ≤ p) : (u ++ v).at? (p + u.length) = v.at? p := by
  have hindex : (p + u.length : Int).toNat = u.length + p.toNat := by omega
  rw [at?, at?, if_neg (by omega), if_neg (by omega), hindex,
    List.getElem?_append_right (by omega), Nat.add_sub_cancel_left]

theorem Input.holds_behind (t : Text) (hp : 0 ≤ p) :
    (ofText (u ++ v)).holds t (p + u.length) = (ofText v).holds t p := by
  have hfits : (p + u.length ≤ ((u ++ v).length : Int)) ↔ p ≤ (v.length : Int) := by
    rw [List.length_append]
    omega
  rw [holds, holds, startsAt_ofText, startsAt_ofText, size_ofText, size_ofText,
    Text.anchor_append hp, List.drop_length_add_append]
  simp only [hfits]

theorem codePointAt_behind (hp : 0 ≤ p) :
    codePointAt (.ofText (u ++ v)) (p + u.length) = codePointAt (.ofText v) p := by
  rw [codePointAt, codePointAt, if_neg (by omega), if_neg (by omega), Input.at?_ofText,
    Input.at?_ofText, Text.at?_behind hp]

end Texts

/-! ## The comparison -/

/-- The end of the first match is that of the second, with every position larger by
`d`. -/
def Outcome.Behind {β : Type} (d : Int) (o o' : Outcome (ParseError α) β) : Prop :=
  o.Related (fun p p' => 0 ≤ p' ∧ p = p' + d) (fun e e' => e = e'.shift d)
    (fun f f' => f = f'.shift d) (fun _ => False) o'

section Leaves

variable {u v : Text} {p : Int}

theorem failShowing_behind {d : Int} {shown : Except Fault Text} {reason : Text → Reason α}
    (hshown : Described shown) :
    (failShowing (p + d) shown reason).Behind d (failShowing p shown reason) := by
  cases shown with
  | ok t => exact .failure (by rw [ParseError.shift])
  | error f =>
      have hf : f = f.shift d := by
        have hdescriptive := hshown f rfl
        cases f <;> first | rfl | exact hdescriptive.elim
      exact .fault hf

theorem matchLiteral_behind (t : Text) (hp : 0 ≤ p) :
    (matchLiteral (.ofText (u ++ v)) t (p + u.length) : Match α).Behind u.length
      (matchLiteral (.ofText v) t p) := by
  have hstop : p + u.length + t.length = p + t.length + u.length := by omega
  rw [matchLiteral, matchLiteral, Input.holds_behind t hp, hstop, Input.slice_ofText,
    Input.slice_ofText, Text.slice_behind hp (by omega)]
  split
  · exact .success ⟨by omega, rfl⟩
  · exact .failure (by rw [ParseError.shift])

theorem matchCodePoint_behind {holds : CodePoint → Except Fault Bool}
    {shown : Except Fault Text} (hholds : ∀ c f, holds c = .error f → f.IsLocal)
    (hshown : Described shown) (hp : 0 ≤ p) :
    (matchCodePoint (.ofText (u ++ v)) holds shown (p + u.length) : Match α).Behind u.length
      (matchCodePoint (.ofText v) holds shown p) := by
  have hlocal : ∀ f : Fault, f.IsLocal → f = f.shift u.length := by
    intro f hf
    cases f <;> first | rfl | exact hf.elim
  have hend : ((Input.ofText (u ++ v)).size : Int) ≤ p + u.length ↔
      ((Input.ofText v).size : Int) ≤ p := by
    rw [Input.size_ofText, Input.size_ofText, List.length_append]
    omega
  rw [matchCodePoint, matchCodePoint, codePointAt_behind hp]
  simp only [hend]
  split
  · exact failShowing_behind hshown
  · cases hc : codePointAt (.ofText v) p with
    | error f => exact .fault (hlocal f (codePointAt_isLocal hc))
    | ok c =>
        simp only []
        cases hb : holds c with
        | error f => exact .fault (hlocal f (hholds c f hb))
        | ok b =>
            cases b with
            | true => exact .success ⟨by omega, by omega⟩
            | false => exact failShowing_behind hshown

variable [Named α]

theorem holdsAny_behind (vs : List (Value α)) (hp : 0 ≤ p) :
    holdsAny (.ofText (u ++ v)) (p + u.length) vs = holdsAny (.ofText v) p vs := by
  induction vs with
  | nil => rfl
  | cons w ws ih =>
      cases w with
      | text t => rw [holdsAny, holdsAny, Input.holds_behind t hp, ih]
      | _ => rfl

theorem matchLooseLiteral_behind (isBound : Nat → Bool) (w : Value α) (hp : 0 ≤ p) :
    (matchLooseLiteral isBound (.ofText (u ++ v)) w (p + u.length)).Behind u.length
      (matchLooseLiteral isBound (.ofText v) w p) := by
  cases w with
  | text t => exact matchLiteral_behind t hp
  | tuple items =>
      have hstop : p + u.length + items.length = p + items.length + u.length := by omega
      rw [matchLooseLiteral, matchLooseLiteral, holdsAny_behind items hp, hstop,
        Input.slice_ofText, Input.slice_ofText, Text.slice_behind hp (by omega)]
      cases h : holdsAny (.ofText v) p items with
      | error f =>
          have hf := holdsAny_isLocal h
          refine .fault ?_
          cases f <;> first | rfl | exact hf.elim
      | ok b =>
          cases b with
          | true => exact .success ⟨by omega, by omega⟩
          | false => exact failShowing_behind (described_write isBound false _)
  | _ => exact .fault rfl

theorem matchLeaf_behind (ctx : Context α) (limit : Nat) (active active' : Active)
    {node : Node α} (hleaf : node.IsLeaf) (hp : 0 ≤ p) :
    (matchNode ctx (limit + 1) (.ofText (u ++ v)) active node (p + u.length)).Behind u.length
      (matchNode ctx (limit + 1) (.ofText v) active' node p) := by
  cases node with
  | literal t => rw [matchNode_literal, matchNode_literal]; exact matchLiteral_behind t hp
  | range low high =>
      rw [matchNode_range, matchNode_range]
      exact matchCodePoint_behind (fun _ _ h => by cases h) (described_range low high) hp
  | looseRange low high =>
      show (matchLooseRange (.ofText (u ++ v)) low high (p + u.length)).Behind u.length
        (matchLooseRange (.ofText v) low high p)
      exact matchCodePoint_behind (fun _ _ h => isBetween_isLocal h)
        (described_looseRange low high) hp
  | looseLiteral w => exact matchLooseLiteral_behind ctx.bindings.isBound w hp
  | empty shared => rw [matchNode_empty, matchNode_empty]; exact .success ⟨hp, rfl⟩
  | bare | stray value => exact .fault rfl
  | sequence _ | choice _ | many _ | exclusion _ _ | capture _ _ | action _ _
  | placeholder _ _ => exact hleaf.elim

end Leaves

/-! ## Whole matches -/

theorem settle_behind (d p : Int) (r : Raised) :
    (settle (p + d) r : Match α).Behind d (settle p r) := by
  have hfault : ∀ r : Raised, Fault.ofRaised r = (Fault.ofRaised r).shift d := by
    intro r
    unfold Fault.ofRaised
    split <;> rfl
  rw [settle, settle]
  split
  · exact .fault (hfault r)
  · cases r.message with
    | ok t => exact .failure (by rw [ParseError.shift])
    | error cause => exact .fault (hfault cause)

/-- The placeholders that a match behind `d` further code points is inside of. -/
def Active.shift (d : Int) (active : Active) : Active := active.map fun x => (x.1, x.2 + d)

theorem Active.mem_shift {d : Int} {active : Active} {id : Nat} {p : Int} :
    (id, p + d) ∈ active.shift d ↔ (id, p) ∈ active := by
  simp only [shift, List.mem_map, Prod.mk.injEq]
  constructor
  · rintro ⟨⟨id', p'⟩, hmem, rfl, hp⟩
    obtain rfl : p' = p := by omega
    exact hmem
  · exact fun hmem => ⟨(id, p), hmem, rfl, rfl⟩

variable [Named α]

/-- No parse that an action starts, of those that a match of the node may come to, reports
left recursion. The report would be one of a position in another text. -/
def Context.StartsNoLeftRecursion (ctx : Context α) (node : Node α) : Prop :=
  ∀ item act, ctx.bindings.Reaches node (.action item act) → ∀ w inner t,
    ctx.perform act w = .parse inner t → ∀ levels shown pos,
      parseInside ctx levels inner t ≠ .error (.fault (.leftRecursion shown pos))

theorem Context.StartsNoLeftRecursion.of_reaches {ctx : Context α} {node n : Node α}
    (h : ctx.StartsNoLeftRecursion node) (hn : ctx.bindings.Reaches node n) :
    ctx.StartsNoLeftRecursion n := fun item act hm => h item act (hn.trans hm)

theorem finish_behind {ctx : Context α} {item : Node α} {act : α}
    (h : ctx.StartsNoLeftRecursion (.action item act)) (limit : Nat) (w : Value α) (d : Int)
    {p stop : Int} (hstop : 0 ≤ stop) :
    (ctx.finish limit act w (p + d) (stop + d)).Behind d (ctx.finish limit act w p stop) := by
  unfold Context.finish
  cases hp : ctx.perform act w with
  | value w' => exact .success ⟨hstop, rfl⟩
  | raised r => exact settle_behind d p r
  | parse inner text =>
      simp only []
      cases hi : parseInside ctx limit inner text with
      | ok w' => exact .success ⟨hstop, rfl⟩
      | error halt =>
          cases halt with
          | refused e t => exact settle_behind d p _
          | fault f =>
              have hf : f = f.shift d := by
                cases f <;> first | rfl | exact absurd hi (h item act .refl w inner text hp _ _ _)
              simp only [settleHalt]
              split
              · exact .fault hf
              · exact settle_behind d p _

theorem shownAs_behind (ctx : Context α) (id : Nat) (name : Value α) {d : Int}
    {fault fault' : Text → Fault} (hfault : ∀ t, fault t = (fault' t).shift d) :
    (ctx.shownAs id name fault).Behind d (ctx.shownAs id name fault') := by
  have hd := described_node ctx.bindings.isBound (Node.placeholder id name) 0
  unfold Context.shownAs
  cases h : (Node.placeholder id name).describe ctx.bindings.isBound 0 with
  | ok t => exact .fault (hfault t)
  | error f =>
      have hdescriptive := hd f h
      refine .fault ?_
      cases f <;> first | rfl | exact hdescriptive.elim

/-- A match behind `u` goes the way of a match at the beginning of what follows. -/
theorem matchNode_behind (ctx : Context α) (u v : Text) (limit : Nat) :
    ∀ (active : Active) (node : Node α) (p : Int), ctx.StartsNoLeftRecursion node → 0 ≤ p →
      (matchNode ctx limit (.ofText (u ++ v)) (active.shift u.length) node
        (p + u.length)).Behind u.length (matchNode ctx limit (.ofText v) active node p) := by
  induction limit with
  | zero => intro active node p _ _; exact .fault rfl
  | succ limit ih =>
      intro active node p hnode hp
      refine matchNode_related_succ (I := fun p p' => 0 ≤ p' ∧ p = p' + u.length)
        ⟨hp, rfl⟩ ?room ?moved ?exhausted ?label ?excluded ?leaf ?part ?placeholder ?act
      case room =>
        simp only [Input.room, Input.size_ofText, List.length_append]
        omega
      case moved =>
        intro p p' q q' hpp hqq
        omega
      case exhausted =>
        intro es es' hes
        have hmap : es = es'.map (ParseError.shift u.length) := by
          induction hes with
          | nil => rfl
          | cons he _ ih => rw [he, ih, List.map_cons]
        rw [ParseError.shift, ParseError.shiftAll_eq_map, hmap]
      case label =>
        intro e e' label he
        rw [he, ParseError.shift_addLabel]
      case excluded =>
        intro item forbidden _
        exact failShowing_behind (described_node _ forbidden _)
      case leaf =>
        exact fun hleaf => matchLeaf_behind ctx limit _ _ hleaf hp
      case part =>
        rintro n hn q q' ⟨hq, rfl⟩
        exact ih active n q' (hnode.of_reaches (Bindings.Reaches.refl.part hn)) hq
      case placeholder =>
        rintro id name rfl
        refine matchNode_placeholder_related (fun _ ht => ht) Active.mem_shift (fun ht => ?_)
          (shownAs_behind ctx id name fun t => rfl) fun target ht => ?_
        · rw [matchNode_unbound ht]
          exact shownAs_behind ctx id name fun t => rfl
        · exact ih ((id, p) :: active) target p
            (hnode.of_reaches (Bindings.Reaches.refl.target ht)) hp
      case act =>
        rintro item act w stop stop' rfl ⟨hstop, rfl⟩
        exact finish_behind hnode limit w u.length hstop

/-- An attempt behind a text answers as the attempt on what follows it: the same value and
length consumed, the same errors with their positions moved, the same faults. -/
theorem attempt_append (ctx : Context α) (limit : Nat) (node : Node α) (u v : Text)
    (hnode : ctx.StartsNoLeftRecursion node) :
    attempt ctx limit node (u ++ v) u.length =
      ((attempt ctx limit node v 0).map (Attempt.shift u.length)).mapError (Halt.shift u) := by
  have hbehind := matchNode_behind ctx u v limit [] node 0 hnode (Int.le_refl 0)
  rw [Int.zero_add] at hbehind
  rw [attempt, attempt]
  generalize matchNode ctx limit (.ofText v) [] node 0 = o' at hbehind ⊢
  change Outcome.Behind _ (matchNode ctx limit (.ofText (u ++ v)) [] node u.length) o' at hbehind
  generalize matchNode ctx limit (.ofText (u ++ v)) [] node u.length = o at hbehind ⊢
  cases hbehind with
  | @success w stop stop' hI =>
      obtain ⟨-, rfl⟩ := hI
      simp [Outcome.toAttempt, Except.map, Except.mapError, Attempt.shift]
  | failure hF =>
      rw [hF]
      rfl
  | @fault f f' hX =>
      rw [hX]
      cases f' <;> first
        | rfl
        | simp [Outcome.toAttempt, Fault.shift, Except.map, Except.mapError, Halt.shift,
            ParseError.shift]
  | excused hE => exact hE.elim

namespace LeftRecursive

/-- Behind two code points the rule finds out that it refers to itself two further on. -/
theorem attempt_append_two :
    context.StartsNoLeftRecursion ref ∧
      attempt context 16 ref ("aa" ++ "b") 2 =
        .error (.fault (.leftRecursion "Recursion(0xADDR)" 2)) := by
  have hnode : context.StartsNoLeftRecursion ref := fun _ _ _ _ _ _ h => by cases h
  have hfront : attempt context 16 ref "b" 0 =
      .error (.fault (.leftRecursion "Recursion(0xADDR)" 0)) := rfl
  have hbehind := attempt_append context 16 ref "aa" "b" hnode
  rw [hfront] at hbehind
  exact ⟨hnode, hbehind⟩

end LeftRecursive

end Peg
