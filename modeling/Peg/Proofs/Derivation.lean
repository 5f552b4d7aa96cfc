import Peg.Proofs.Agreement
import Peg.Proofs.Rules
import Peg.Proofs.Termination

/-!
# Derivations

The meaning of a grammar without an engine: two judgements, that a node succeeds at a
position of a text with a value and an end, and that it fails there, with one group of
rules for each sort of node. Nothing in them knows of levels or of placeholders that
are being matched. A rule that refers to itself on the left has simply no derivation
of either kind.

The rules are those of ordered choice. An alternative is taken only where all before it
fail, a repeat goes on as long as its item moves on, and an exclusion asks for a failure
of what is forbidden. So the two judgements need each other, and "fails" is more than
"does not succeed".

A reading is an evaluation of these rules with a bound on the depth, so the two are
compared first, and the comparison with matches is `matchNode_agrees`.
-/

namespace Peg

variable {α : Type}

section Rules

variable (ctx : Context α) (text : Text)

mutual

/-- The node succeeds at `p` with the value `v`, and ends at `q`. -/
inductive Succeeds : (node : Node α) → (p : Nat) → (v : Value α) → (q : Nat) → Prop
  | literal {t p} : t <+: text.drop p → Succeeds (.literal t) p (.text t) (p + t.length)
  | range {low high p c} : text[p]? = some c → low ≤ c.val → c.val ≤ high →
    Succeeds (.range low high) p (.text [c]) (p + 1)
  | sequence {items p vs q} : SucceedsAll items p vs q →
    Succeeds (.sequence items) p (.tuple vs) q
  | choice {before n after p v q} : (∀ m ∈ before, Fails m p) → Succeeds n p v q →
    Succeeds (.choice (before ++ n :: after)) p v q
  | many {item p vs q} : Iterates item p vs q → Succeeds (.many item) p (.list vs) q
  | exclusion {item forbidden p v q} : Succeeds item p v q → Fails forbidden p →
    Succeeds (.exclusion item forbidden) p v q
  | capture {label item p v q} : Succeeds item p v q →
    Succeeds (.capture label item) p (.captured label v) q
  | placeholder {id name target p v q} : ctx.bindings.target? id = some target →
    Succeeds target p v q → Succeeds (.placeholder id name) p v q
  | action {item act p v w q} : Succeeds item p v q → ctx.perform act v = .value w →
    Succeeds (.action item act) p w q
  | empty {shared p} : Succeeds (.empty shared) p .null p

/-- The nodes succeed one after the other. -/
inductive SucceedsAll : (items : List (Node α)) → (p : Nat) → (vs : List (Value α)) →
    (q : Nat) → Prop
  | nil {p} : SucceedsAll [] p [] p
  | cons {n ns p v mid vs q} : Succeeds n p v mid → SucceedsAll ns mid vs q →
    SucceedsAll (n :: ns) p (v :: vs) q

/-- The item succeeds in a row until it fails or does not move on. -/
inductive Iterates : (item : Node α) → (p : Nat) → (vs : List (Value α)) → (q : Nat) → Prop
  | fails {item p} : Fails item p → Iterates item p [] p
  | rests {item p v} : Succeeds item p v p → Iterates item p [] p
  | moves {item p v mid vs q} : Succeeds item p v mid → mid ≠ p →
    Iterates item mid vs q → Iterates item p (v :: vs) q

/-- The node fails at `p`. -/
inductive Fails : (node : Node α) → (p : Nat) → Prop
  | literal {t p} : ¬ t <+: text.drop p → Fails (.literal t) p
  | range {low high p} : (∀ c, text[p]? = some c → ¬ (low ≤ c.val ∧ c.val ≤ high)) →
    Fails (.range low high) p
  | sequence {before n after p vs mid} : SucceedsAll before p vs mid → Fails n mid →
    Fails (.sequence (before ++ n :: after)) p
  | choice {alternatives p} : (∀ n ∈ alternatives, Fails n p) →
    Fails (.choice alternatives) p
  | item {item forbidden p} : Fails item p → Fails (.exclusion item forbidden) p
  | forbidden {item forbidden p v q w r} : Succeeds item p v q → Succeeds forbidden p w r →
    Fails (.exclusion item forbidden) p
  | capture {label item p} : Fails item p → Fails (.capture label item) p
  | placeholder {id name target p} : ctx.bindings.target? id = some target →
    Fails target p → Fails (.placeholder id name) p
  | action {item act p} : Fails item p → Fails (.action item act) p
  | raised {item act p v q r} : Succeeds item p v q → ctx.perform act v = .raised r →
    Fails (.action item act) p

end

end Rules

/-! ## What is read is derivable -/

section Sound

variable {ctx : Context α} {text : Text}

/-- The judgement that a reading of the text from `p` on stands for. -/
def Derives (ctx : Context α) (text : Text) (node : Node α) (p : Nat) :
    Reading (Value α) → Prop
  | .matched v rest =>
    ∃ q, q ≤ text.length ∧ rest = text.drop q ∧ Succeeds ctx text node p v q
  | .mismatch => Fails ctx text node p
  | .stuck => True

namespace Derives

variable {node part : Node α} {p : Nat} {r : Reading (Value α)}

/-- What goes on where a part succeeds, and fails where the part fails. -/
theorem andThen {next : Value α → Text → Reading (Value α)} (h : Derives ctx text part p r)
    (hnext : ∀ v q, q ≤ text.length → Succeeds ctx text part p v q →
      Derives ctx text node p (next v (text.drop q)))
    (hfails : Fails ctx text part p → Fails ctx text node p) :
    Derives ctx text node p (r.andThen next) := by
  cases r with
  | matched v rest =>
      obtain ⟨q, hq, rfl, hv⟩ := h
      exact hnext v q hq hv
  | mismatch => exact hfails h
  | stuck => exact trivial

theorem map {f : Value α → Value α} (h : Derives ctx text part p r)
    (hsucceeds : ∀ v q, Succeeds ctx text part p v q → Succeeds ctx text node p (f v) q)
    (hfails : Fails ctx text part p → Fails ctx text node p) :
    Derives ctx text node p (r.map f) := by
  cases r with
  | matched v rest =>
      obtain ⟨q, hq, hrest, hv⟩ := h
      exact ⟨q, hq, hrest, hsucceeds v q hv⟩
  | mismatch => exact hfails h
  | stuck => exact trivial

theorem literal (hp : p ≤ text.length) (t : Text) :
    Derives ctx text (.literal t) p (readLiteral t (text.drop p)) := by
  rw [readLiteral]
  split
  · next h =>
      have hle := h.length_le
      rw [List.length_drop] at hle
      exact ⟨p + t.length, by omega, by rw [List.drop_drop], .literal h⟩
  · next h => exact Fails.literal h

theorem range (low high : Int) :
    Derives ctx text (.range low high) p (readRange low high (text.drop p)) := by
  rcases Nat.lt_or_ge p text.length with hlt | hge
  · rw [List.drop_eq_getElem_cons hlt, readRange]
    split
    · next h => exact ⟨p + 1, hlt, rfl, .range (by simp [hlt]) h.1 h.2⟩
    · next h =>
        refine Fails.range fun c hc => ?_
        obtain rfl : text[p] = c := by simpa [hlt] using hc
        exact h
  · rw [List.drop_of_length_le hge]
    refine Fails.range fun c hc => ?_
    rw [List.getElem?_eq_none hge] at hc
    cases hc

end Derives

theorem drop_length_eq {p q : Nat} (hp : p ≤ text.length) (hq : q ≤ text.length) :
    (text.drop q).length = (text.drop p).length ↔ q = p := by
  simp only [List.length_drop]
  omega

theorem readAll_succeeds {step : Node α → Text → Reading (Value α)} {items : List (Node α)}
    {p : Nat} {vs : List (Value α)} {rest : Text}
    (hstep : ∀ n ∈ items, ∀ p ≤ text.length, Derives ctx text n p (step n (text.drop p)))
    (hp : p ≤ text.length) (h : readAll step items (text.drop p) = .matched vs rest) :
    ∃ q, q ≤ text.length ∧ rest = text.drop q ∧ SucceedsAll ctx text items p vs q := by
  induction items generalizing p vs with
  | nil => cases h; exact ⟨p, hp, rfl, .nil⟩
  | cons n ns ih =>
      obtain ⟨v, mid, hv, hvs⟩ := Reading.andThen_eq_matched.mp h
      obtain ⟨ws, hws, rfl⟩ := Reading.map_eq_matched.mp hvs
      have hn := hstep n (by simp) p hp
      rw [hv] at hn
      obtain ⟨m, hm, rfl, hn⟩ := hn
      obtain ⟨q, hq, hrest, hns⟩ := ih (fun a ha => hstep a (by simp [ha])) hm hws
      exact ⟨q, hq, hrest, .cons hn hns⟩

theorem readAll_fails {step : Node α → Text → Reading (Value α)} {items : List (Node α)}
    {p : Nat}
    (hstep : ∀ n ∈ items, ∀ p ≤ text.length, Derives ctx text n p (step n (text.drop p)))
    (hp : p ≤ text.length) (h : readAll step items (text.drop p) = .mismatch) :
    ∃ before n after vs mid, items = before ++ n :: after ∧
      SucceedsAll ctx text before p vs mid ∧ Fails ctx text n mid := by
  induction items generalizing p with
  | nil => cases h
  | cons n ns ih =>
      have hn := hstep n (by simp) p hp
      rw [readAll] at h
      cases hs : step n (text.drop p) with
      | mismatch =>
          rw [hs] at hn
          exact ⟨[], n, ns, [], p, rfl, .nil, hn⟩
      | stuck => rw [hs] at h; cases h
      | matched v rest =>
          rw [hs] at h hn
          obtain ⟨m, hm, rfl, hn⟩ := hn
          obtain ⟨before, a, after, vs, mid, rfl, hbefore, ha⟩ :=
            ih (fun a ha => hstep a (by simp [ha])) hm (Reading.map_eq_mismatch.mp h)
          exact ⟨n :: before, a, after, v :: vs, mid, rfl, .cons hn hbefore, ha⟩

theorem readFirst_mismatch {step : Node α → Reading (Value α)}
    {alternatives : List (Node α)} :
    readFirst step alternatives = .mismatch ↔ ∀ n ∈ alternatives, step n = .mismatch := by
  induction alternatives with
  | nil => simp [readFirst]
  | cons n ns ih =>
      rw [readFirst]
      cases hs : step n <;> simp [hs, ih]

theorem readMany_iterates {step : Text → Reading (Value α)} {item : Node α} {room p : Nat}
    {vs : List (Value α)} {rest : Text}
    (hstep : ∀ p ≤ text.length, Derives ctx text item p (step (text.drop p)))
    (hp : p ≤ text.length) (hroom : (text.drop p).length < room)
    (hshrinks : ∀ s v rest, step s = .matched v rest → rest.length ≤ s.length)
    (h : readMany step room (text.drop p) = .matched vs rest) :
    ∃ q, q ≤ text.length ∧ rest = text.drop q ∧ Iterates ctx text item p vs q := by
  induction room generalizing p vs with
  | zero => omega
  | succ room ih =>
      have hn := hstep p hp
      rw [readMany] at h
      cases hs : step (text.drop p) with
      | mismatch =>
          rw [hs] at h hn
          cases h
          exact ⟨p, hp, rfl, .fails hn⟩
      | stuck => rw [hs] at h; cases h
      | matched v mid =>
          have hle := hshrinks _ _ _ hs
          rw [hs] at h hn
          obtain ⟨m, hm, rfl, hn⟩ := hn
          simp only [drop_length_eq hp hm] at h
          split at h
          · next hrests =>
              subst hrests
              cases h
              exact ⟨m, hp, rfl, .rests hn⟩
          · next hmoves =>
              obtain ⟨ws, hws, rfl⟩ := Reading.map_eq_matched.mp h
              have hlt : (text.drop m).length < room := by
                have hne := mt (drop_length_eq hp hm).mp hmoves
                omega
              obtain ⟨q, hq, hrest, hws⟩ := ih hm hlt hws
              exact ⟨q, hq, hrest, .moves hn hmoves hws⟩

theorem readMany_ne_mismatch {step : Text → Reading (Value α)} {room : Nat} {s : Text} :
    readMany step room s ≠ .mismatch := by
  induction room generalizing s with
  | zero => simp [readMany]
  | succ room ih =>
      rw [readMany]
      split
      · split
        · simp
        · simpa using ih
      · simp
      · simp

theorem readNode_derives (ctx : Context α) (text : Text) (limit : Nat) :
    ∀ (node : Node α) (p : Nat), p ≤ text.length →
      Derives ctx text node p (readNode ctx limit node (text.drop p)) := by
  induction limit with
  | zero => intro node p _; exact trivial
  | succ limit ih =>
      intro node p hp
      cases node with
      | literal t => rw [readNode_literal]; exact .literal hp t
      | range low high => rw [readNode_range]; exact .range low high
      | sequence items =>
          rw [readNode_sequence]
          cases h : readAll (readNode ctx limit) items (text.drop p) with
          | matched vs rest =>
              obtain ⟨q, hq, hrest, hvs⟩ := readAll_succeeds (fun n _ => ih n) hp h
              exact ⟨q, hq, hrest, .sequence hvs⟩
          | mismatch =>
              obtain ⟨before, n, after, vs, mid, rfl, hbefore, hn⟩ :=
                readAll_fails (fun n _ => ih n) hp h
              exact Fails.sequence hbefore hn
          | stuck => exact trivial
      | choice alternatives =>
          rw [readNode_choice]
          cases h : readFirst (readNode ctx limit · (text.drop p)) alternatives with
          | matched v rest =>
              obtain ⟨before, n, after, rfl, hbefore, hn⟩ := readFirst_matched h
              have hsucceeds := ih n p hp
              rw [hn] at hsucceeds
              obtain ⟨q, hq, hrest, hsucceeds⟩ := hsucceeds
              refine ⟨q, hq, hrest, .choice (fun m hm => ?_) hsucceeds⟩
              have hfails := ih m p hp
              rwa [hbefore m hm] at hfails
          | mismatch =>
              refine Fails.choice fun n hn => ?_
              have hfails := ih n p hp
              rwa [readFirst_mismatch.mp h n hn] at hfails
          | stuck => exact trivial
      | many item =>
          rw [readNode_many]
          cases h : readMany (readNode ctx limit item) ((text.drop p).length + 2)
              (text.drop p) with
          | matched vs rest =>
              obtain ⟨q, hq, hrest, hvs⟩ := readMany_iterates (ih item) hp (by omega)
                (fun _ _ _ h => (readNode_suffix h).length_le) h
              exact ⟨q, hq, hrest, .many hvs⟩
          | mismatch => exact absurd h readMany_ne_mismatch
          | stuck => exact trivial
      | exclusion item forbidden =>
          have hforbidden := ih forbidden p hp
          rw [readNode_exclusion]
          refine (ih item p hp).andThen (fun v q hq hitem => ?_) Fails.item
          cases hf : readNode ctx limit forbidden (text.drop p) with
          | matched w mid =>
              rw [hf] at hforbidden
              obtain ⟨r, -, -, hforbidden⟩ := hforbidden
              exact Fails.forbidden hitem hforbidden
          | mismatch =>
              rw [hf] at hforbidden
              exact ⟨q, hq, rfl, .exclusion hitem hforbidden⟩
          | stuck => exact trivial
      | capture label item =>
          rw [readNode_capture]
          exact (ih item p hp).map (fun _ _ => .capture) Fails.capture
      | placeholder id name =>
          rw [readNode_placeholder]
          cases ht : ctx.bindings.target? id with
          | none => exact trivial
          | some target =>
              have htarget := ih target p hp
              simp only []
              cases h : readNode ctx limit target (text.drop p) with
              | matched v rest =>
                  rw [h] at htarget
                  obtain ⟨q, hq, hrest, htarget⟩ := htarget
                  exact ⟨q, hq, hrest, .placeholder ht htarget⟩
              | mismatch =>
                  rw [h] at htarget
                  exact Fails.placeholder ht htarget
              | stuck => exact trivial
      | action item act =>
          rw [readNode_action]
          refine (ih item p hp).andThen (fun v q hq hitem => ?_) Fails.action
          cases hact : ctx.perform act v with
          | value w => exact ⟨q, hq, rfl, .action hitem hact⟩
          | raised r =>
              rw [ActionResult.reading]
              split
              · exact Fails.raised hitem hact
              · exact trivial
          | parse inner t => exact trivial
      | empty shared => exact ⟨p, hp, rfl, .empty⟩
      | bare | stray _ | looseLiteral _ | looseRange _ _ => exact trivial

end Sound

/-! ## What is derivable is read

A derivation has a depth, and with so many levels the reading follows it. -/

section Complete

variable {ctx : Context α} {text : Text}

variable [Named α]

mutual

theorem Succeeds.reads {node : Node α} {p q : Nat} {v : Value α}
    (h : Succeeds ctx text node p v q) : p ≤ text.length → ctx.IsRegular node →
    q ≤ text.length ∧ ∃ levels, ctx.Reads levels node (text.drop p)
      (.matched v (text.drop q)) := by
  intro hp hnode
  match h with
  | @Succeeds.literal _ _ _ t _ ht =>
      have hle := ht.length_le
      have hread : ctx.Reads 1 (.literal t) _ _ := .literal_at ht
      rw [List.length_drop] at hle
      rw [List.drop_drop] at hread
      exact ⟨by omega, _, hread⟩
  | .range hc hlow hhigh =>
      obtain ⟨hlt, rfl⟩ := List.getElem?_eq_some_iff.mp hc
      rw [List.drop_eq_getElem_cons hlt]
      exact ⟨hlt, _, .range hlow hhigh⟩
  | .sequence hvs =>
      obtain ⟨hq, levels, hread⟩ := hvs.reads hp fun n hn => hnode.part hn
      exact ⟨hq, _, .sequence hread⟩
  | .choice hbefore hn =>
      obtain ⟨k, hk⟩ := Context.exists_reads fun m hm =>
        (hbefore m hm).reads hp (hnode.part (by simp [Node.parts, hm]))
      obtain ⟨hq, l, hl⟩ := hn.reads hp (hnode.part (by simp [Node.parts]))
      exact ⟨hq, max k l + 1, .choice (fun m hm => (hk m hm).mono (by omega))
        (hl.mono (by omega))⟩
  | .many hvs =>
      obtain ⟨hq, levels, hread⟩ := hvs.reads hp (hnode.part (by simp [Node.parts]))
      exact ⟨hq, _, .many hread⟩
  | .exclusion hitem hforbidden =>
      obtain ⟨hq, k, hk⟩ := hitem.reads hp (hnode.part (by simp [Node.parts]))
      obtain ⟨l, hl⟩ := hforbidden.reads hp (hnode.part (by simp [Node.parts]))
      exact ⟨hq, max k l + 1, .exclusion (hk.mono (by omega)) (hl.mono (by omega))⟩
  | .capture hitem =>
      obtain ⟨hq, levels, hread⟩ := hitem.reads hp (hnode.part (by simp [Node.parts]))
      exact ⟨hq, _, .capture hread⟩
  | .placeholder ht htarget =>
      obtain ⟨hq, levels, hread⟩ := htarget.reads hp (hnode.target ht)
      exact ⟨hq, _, .placeholder ht hread⟩
  | .action hitem hact =>
      obtain ⟨hq, levels, hread⟩ := hitem.reads hp (hnode.part (by simp [Node.parts]))
      exact ⟨hq, _, .action_value hread hact⟩
  | .empty => exact ⟨hp, _, .empty⟩

theorem SucceedsAll.reads {items : List (Node α)} {p q : Nat} {vs : List (Value α)}
    (h : SucceedsAll ctx text items p vs q) : p ≤ text.length →
    (∀ n ∈ items, ctx.IsRegular n) → q ≤ text.length ∧ ∃ levels,
      ctx.ReadsAll levels items (text.drop p) (.matched vs (text.drop q)) := by
  intro hp hitems
  match h with
  | .nil => exact ⟨hp, 0, .nil⟩
  | .cons hn hns =>
      obtain ⟨hmid, k, hk⟩ := hn.reads hp (hitems _ (by simp))
      obtain ⟨hq, l, hl⟩ := hns.reads hmid fun m hm => hitems m (by simp [hm])
      exact ⟨hq, max k l, .cons (hk.mono (by omega)) (hl.mono (by omega))⟩

theorem Iterates.reads {item : Node α} {p q : Nat} {vs : List (Value α)}
    (h : Iterates ctx text item p vs q) : p ≤ text.length → ctx.IsRegular item →
    q ≤ text.length ∧ ∃ levels,
      ctx.ReadsMany levels item (text.drop p) vs (text.drop q) := by
  intro hp hitem
  match h with
  | .fails hfails =>
      obtain ⟨levels, hread⟩ := hfails.reads hp hitem
      exact ⟨hp, levels, .stop hread⟩
  | .rests hrests =>
      obtain ⟨-, levels, hread⟩ := hrests.reads hp hitem
      exact ⟨hp, levels, .rests hread⟩
  | .moves hn hmoves hvs =>
      obtain ⟨hmid, k, hk⟩ := hn.reads hp hitem
      obtain ⟨hq, l, hl⟩ := hvs.reads hmid hitem
      have hshrinks := (readNode_suffix (hk k (Nat.le_refl k))).length_le
      have hlength := mt (drop_length_eq hp hmid).mp hmoves
      exact ⟨hq, max k l, .step (hk.mono (by omega)) (by omega) (hl.mono (by omega))⟩

theorem Fails.reads {node : Node α} {p : Nat} (h : Fails ctx text node p) :
    p ≤ text.length → ctx.IsRegular node →
    ∃ levels, ctx.Reads levels node (text.drop p) .mismatch := by
  intro hp hnode
  match h with
  | .literal ht => exact ⟨_, .literal_mismatch ht⟩
  | .range hc =>
      refine ⟨_, .range_mismatch fun c hhead => hc c ?_⟩
      rwa [List.head?_drop] at hhead
  | .sequence hbefore hn =>
      have hparts : ∀ m ∈ (Node.sequence _ : Node α).parts, ctx.IsRegular m :=
        fun m hm => hnode.part hm
      obtain ⟨hmid, k, hk⟩ := hbefore.reads hp fun m hm => hparts m (by simp [Node.parts, hm])
      obtain ⟨l, hl⟩ := hn.reads hmid (hparts _ (by simp [Node.parts]))
      exact ⟨max k l + 1, .sequence_mismatch
        (.append (hk.mono (by omega)) (.here (hl.mono (by omega))))⟩
  | .choice hfails =>
      obtain ⟨levels, hread⟩ := Context.exists_reads fun m hm =>
        (hfails m hm).reads hp (hnode.part hm)
      exact ⟨_, .choice_mismatch hread⟩
  | .item hitem =>
      obtain ⟨levels, hread⟩ := hitem.reads hp (hnode.part (by simp [Node.parts]))
      exact ⟨_, .exclusion_item hread⟩
  | .forbidden hitem hforbidden =>
      obtain ⟨-, k, hk⟩ := hitem.reads hp (hnode.part (by simp [Node.parts]))
      obtain ⟨-, l, hl⟩ := hforbidden.reads hp (hnode.part (by simp [Node.parts]))
      exact ⟨max k l + 1, .exclusion_forbidden (hk.mono (by omega)) (hl.mono (by omega))⟩
  | .capture hitem =>
      obtain ⟨levels, hread⟩ := hitem.reads hp (hnode.part (by simp [Node.parts]))
      exact ⟨_, .capture_mismatch hread⟩
  | .placeholder ht htarget =>
      obtain ⟨levels, hread⟩ := htarget.reads hp (hnode.target ht)
      exact ⟨_, .placeholder ht hread⟩
  | .action hitem =>
      obtain ⟨levels, hread⟩ := hitem.reads hp (hnode.part (by simp [Node.parts]))
      exact ⟨_, .action_mismatch hread⟩
  | @Fails.raised _ _ _ item act _ v _ r hitem hact =>
      obtain ⟨-, levels, hread⟩ := hitem.reads hp (hnode.part (by simp [Node.parts]))
      have hplain := hnode.plain item act .refl v
      rw [hact] at hplain
      have hraised : ctx.Reads _ (.action item act) _ _ := .action hread
      rw [hact, ActionResult.reading, if_pos (show r.IsPlain from hplain)] at hraised
      exact ⟨_, hraised⟩

end

end Complete

/-! ## Matches decide what is derivable -/

section Decide

variable [Named α] {ctx : Context α} {text : Text} {node : Node α} {p : Nat}

theorem Succeeds.unique {v v' : Value α} {q q' : Nat} (h : Succeeds ctx text node p v q)
    (h' : Succeeds ctx text node p v' q') (hp : p ≤ text.length)
    (hnode : ctx.IsRegular node) : v = v' ∧ q = q' := by
  obtain ⟨hq, _, hread⟩ := h.reads hp hnode
  obtain ⟨hq', _, hread'⟩ := h'.reads hp hnode
  obtain ⟨hv, hrest⟩ := Reading.matched.inj (hread.unique hread')
  exact ⟨hv, (drop_length_eq hq' hq).mp (by rw [hrest])⟩

theorem Succeeds.not_fails {v : Value α} {q : Nat} (h : Succeeds ctx text node p v q)
    (hp : p ≤ text.length) (hnode : ctx.IsRegular node) : ¬ Fails ctx text node p := by
  intro hfails
  obtain ⟨-, _, hread⟩ := h.reads hp hnode
  obtain ⟨_, hread'⟩ := hfails.reads hp hnode
  cases hread.unique hread'

/-- Where a match reports left recursion, no number of levels is enough. -/
theorem readNode_stuck {limit : Nat} {t : Text} {q : Int} (hp : p ≤ text.length)
    (hnode : ctx.IsRegular node)
    (h : matchNode ctx limit (.ofText text) [] node p = .fault (.leftRecursion t q))
    (levels : Nat) : readNode ctx levels node (text.drop p) = .stuck := by
  have habove : ∀ levels ≥ limit, readNode ctx levels node (text.drop p) = .stuck := by
    intro levels hle
    have hsame := matchNode_extends ctx (.ofText text) hle [] node p hnode.isQuiet (by simp [h])
    rw [h] at hsame
    rcases matchNode_agrees levels hnode hp with hagrees | ⟨-, hstuck⟩
    · rw [hsame] at hagrees
      exact hagrees.reading_of_fault.1
    · exact hstuck
  rcases Nat.le_total limit levels with hle | hle
  · exact habove levels hle
  · by_contra hne
    rw [← readNode_mono hle hne] at hne
    exact hne (habove limit (Nat.le_refl _))

/-- A match that is not stopped by the limit comes to what can be derived. -/
theorem matchNode_decides {limit : Nat} (hp : p ≤ text.length) (hnode : ctx.IsRegular node)
    (hlimit : matchNode ctx limit (.ofText text) [] node p ≠ .fault .tooDeep) :
    (∃ v, ∃ q : Nat, matchNode ctx limit (.ofText text) [] node p = .success v q ∧
      Succeeds ctx text node p v q) ∨
    (∃ e, matchNode ctx limit (.ofText text) [] node p = .failure e ∧
      Fails ctx text node p) ∨
    (∃ t q, matchNode ctx limit (.ofText text) [] node p = .fault (.leftRecursion t q) ∧
      (∀ v q, ¬ Succeeds ctx text node p v q) ∧ ¬ Fails ctx text node p) := by
  have hderives := readNode_derives ctx text limit node p hp
  rcases matchNode_agrees limit hnode hp with h | ⟨⟨t, q, ho⟩, -⟩
  · cases ho : matchNode ctx limit (.ofText text) [] node p with
    | success v stop =>
        rw [ho] at h
        obtain ⟨q, hq, rfl, hr⟩ := h.reading_of_success
        rw [hr] at hderives
        obtain ⟨q', hq', hrest, hsucceeds⟩ := hderives
        obtain rfl : q' = q := (drop_length_eq hq hq').mp (by rw [hrest])
        exact .inl ⟨v, q', rfl, hsucceeds⟩
    | failure e =>
        rw [ho] at h
        rw [h.reading_of_failure] at hderives
        exact .inr (.inl ⟨e, rfl, hderives⟩)
    | fault f =>
        rw [ho] at h
        obtain ⟨-, rfl⟩ := h.reading_of_fault
        exact absurd ho hlimit
  · have hstuck := readNode_stuck hp hnode ho
    refine .inr (.inr ⟨t, q, ho, fun v q hsucceeds => ?_, fun hfails => ?_⟩)
    · obtain ⟨-, levels, hread⟩ := hsucceeds.reads hp hnode
      cases (hstuck levels).symm.trans (hread levels (Nat.le_refl _))
    · obtain ⟨levels, hread⟩ := hfails.reads hp hnode
      cases (hstuck levels).symm.trans (hread levels (Nat.le_refl _))

/-- There is a number of levels from which on the limit is out of reach. -/
theorem exists_levels (hnode : ctx.IsRegular node) :
    ∃ levels, ∀ limit ≥ levels,
      matchNode ctx limit (.ofText text) [] node p ≠ .fault .tooDeep :=
  exists_levels_above ctx node text p hnode.keepsInside
    (fun _ _ _ _ hact hr => (hnode.isPlain hact hr).kind_ne) fun r hr => by
      cases hr with
      | own hact hr => exact (hnode.isPlain hact hr).not_hidesEnd
      | inside hact hp _ => exact (hnode.isQuiet _ _ hact _ _ _ hp).elim

/-- On a regular grammar, with the nesting limit out of reach, an attempt matches what
succeeds, fails where the node fails, and reports left recursion exactly where there is
no derivation. -/
theorem attempt_iff_derivation (ctx : Context α) (node : Node α) (text : Text) (pos : Nat)
    (hnode : ctx.IsRegular node) (hpos : pos ≤ text.length) :
    (∃ levels, ∀ limit ≥ levels, ∀ e t, attempt ctx limit node text pos ≠ .error (.refused e t)) ∧
    ∀ limit, (∀ e t, attempt ctx limit node text pos ≠ .error (.refused e t)) →
      (∀ v n, attempt ctx limit node text pos = .ok (.matched v n) ↔
        ∃ stop : Nat, (stop : Int) = pos + n ∧ Succeeds ctx text node pos v stop) ∧
      ((∃ e, attempt ctx limit node text pos = .ok (.failed e)) ↔ Fails ctx text node pos) ∧
      ((∃ t p, attempt ctx limit node text pos = .error (.fault (.leftRecursion t p))) ↔
        (∀ v stop, ¬ Succeeds ctx text node pos v stop) ∧ ¬ Fails ctx text node pos) := by
  have hrefused : ∀ limit,
      (∀ e t, attempt ctx limit node text pos ≠ .error (.refused e t)) ↔
        matchNode ctx limit (.ofText text) [] node pos ≠ .fault .tooDeep := by
    intro limit
    rw [attempt]
    cases matchNode ctx limit (.ofText text) [] node pos with
    | success v stop => simp [Outcome.toAttempt]
    | failure e => simp [Outcome.toAttempt]
    | fault f => cases f <;> simp [Outcome.toAttempt]
  simp only [hrefused]
  refine ⟨exists_levels hnode, fun limit hlimit => ?_⟩
  simp only [attempt]
  rcases matchNode_decides hpos hnode hlimit with
    ⟨v, q, ho, hsucceeds⟩ | ⟨e, ho, hfails⟩ | ⟨t, q, ho, hnone, hnofail⟩
  · have hnofail := hsucceeds.not_fails hpos hnode
    rw [ho]
    refine ⟨fun w n => ⟨fun h => ?_, fun h => ?_⟩, ?_, ?_⟩
    · obtain ⟨rfl, rfl⟩ : v = w ∧ (q : Int) - pos = n := by simpa [Outcome.toAttempt] using h
      exact ⟨q, by omega, hsucceeds⟩
    · obtain ⟨stop, hstop, hw⟩ := h
      obtain ⟨rfl, rfl⟩ := hsucceeds.unique hw hpos hnode
      have hn : (q : Int) - pos = n := by omega
      rw [Outcome.toAttempt, hn]
    · simp [Outcome.toAttempt, hnofail]
    · simp only [Outcome.toAttempt, reduceCtorEq, exists_false, false_iff, not_and]
      exact fun hnone => absurd hsucceeds (hnone v q)
  · have hnone : ∀ v q, ¬ Succeeds ctx text node pos v q := fun v q h =>
      h.not_fails hpos hnode hfails
    rw [ho]
    simp [Outcome.toAttempt, hfails, hnone]
  · rw [ho]
    simp [Outcome.toAttempt, hnone, hnofail]

end Decide

namespace LeftRecursive

theorem isRegular : context.IsRegular ref :=
  Context.isRegular_of_isReady (by decide) (by decide) fun _ _ => trivial

/-- The rule does not derive anything from its first alternative, nor does it fail. -/
theorem attempt_iff_derivation_left :
    context.IsRegular ref ∧ 0 ≤ ("b" : Text).length ∧
      (∀ e t, attempt context 16 ref "b" 0 ≠ .error (.refused e t)) ∧
      (∀ v stop, ¬ Succeeds context "b" ref 0 v stop) ∧ ¬ Fails context "b" ref 0 := by
  have hleft : ∃ t p, attempt context 16 ref "b" (0 : Nat) =
      .error (.fault (.leftRecursion t p)) := ⟨_, _, rfl⟩
  have hrefused : ∀ e t, attempt context 16 ref "b" (0 : Nat) ≠ .error (.refused e t) := by
    intro e t
    obtain ⟨t', p, h⟩ := hleft
    rw [h]
    simp
  have hiff := (attempt_iff_derivation context ref "b" 0 isRegular (by decide)).2 16 hrefused
  exact ⟨isRegular, by decide, hrefused, hiff.2.2.mp hleft⟩

end LeftRecursive

end Peg
