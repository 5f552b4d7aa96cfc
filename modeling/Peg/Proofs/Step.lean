import Peg.Proofs.Description
import Peg.Proofs.Outcome

/-!
# One level of a match

What a match of a node does at one level is read off here once, for every kind of
node, so that the theorems about whole matches only have to say what they carry down
and up. `matchNode_meets_succ` is that step: if the matches of the parts of a node, and
of the target of a placeholder, keep an invariant of positions and end only in faults
of some sort, then so does the match of the node. What is left to whoever uses it are
the leaves, the actions, and the faults that a placeholder has of its own.
-/

namespace Peg

variable {α : Type} [Named α]

/-- What becomes of the result `v` of the item of an action, which was matched from
`pos` up to `stop`. -/
def Context.finish (ctx : Context α) (limit : Nat) (act : α) (v : Value α) (pos stop : Int) :
    Match α :=
  match ctx.perform act v with
  | .value w => .success w stop
  | .raised r => settle pos r
  | .parse inner text =>
    match parseInside ctx limit inner text with
    | .ok w => .success w stop
    | .error h => settleHalt pos h

/-- A placeholder as faults show it. -/
def Context.shownAs (ctx : Context α) (id : Nat) (name : Value α) (fault : Text → Fault) :
    Match α :=
  match (Node.placeholder id name).describe ctx.bindings.isBound 0 with
  | .ok t => .fault (fault t)
  | .error f => .fault f

section Equations

variable {ctx : Context α} {limit : Nat} {input : Input} {active : Active} {pos : Int}

theorem matchNode_zero (node : Node α) :
    matchNode ctx 0 input active node pos = .fault .tooDeep := rfl

theorem matchNode_literal (t : Text) :
    matchNode ctx (limit + 1) input active (.literal t) pos = matchLiteral input t pos := rfl

theorem matchNode_range (low high : Int) :
    matchNode ctx (limit + 1) input active (.range low high) pos =
      matchRange input low high pos := rfl

theorem matchNode_empty (shared : Bool) :
    matchNode ctx (limit + 1) input active (.empty shared) pos = .success .null pos := rfl

theorem matchNode_sequence (items : List (Node α)) :
    matchNode ctx (limit + 1) input active (.sequence items) pos =
      (matchAll (matchNode ctx limit input active) items pos).map .tuple := rfl

theorem matchNode_choice (alternatives : List (Node α)) :
    matchNode ctx (limit + 1) input active (.choice alternatives) pos =
      (matchFirst (matchNode ctx limit input active · pos) alternatives).mapError
        (.exhausted · pos []) := rfl

theorem matchNode_many (item : Node α) :
    matchNode ctx (limit + 1) input active (.many item) pos =
      (matchMany (matchNode ctx limit input active item) (input.room pos) pos).map .list := rfl

theorem matchNode_capture (label : Value α) (item : Node α) :
    matchNode ctx (limit + 1) input active (.capture label item) pos =
      ((matchNode ctx limit input active item pos).map (.captured label)).mapError
        (·.addLabel label) := rfl

theorem matchNode_action (item : Node α) (act : α) :
    matchNode ctx (limit + 1) input active (.action item act) pos =
      (matchNode ctx limit input active item pos).andThen fun v stop =>
        ctx.finish limit act v pos stop := rfl

theorem matchNode_exclusion (item forbidden : Node α) :
    matchNode ctx (limit + 1) input active (.exclusion item forbidden) pos =
      (matchNode ctx limit input active item pos).andThen fun v stop =>
        match matchNode ctx limit input active forbidden pos with
        | .success .. => failShowing pos
          (forbidden.describe ctx.bindings.isBound Node.usualDepth) .excluded
        | .failure _ => .success v stop
        | .fault f => .fault f := rfl

theorem matchNode_placeholder (id : Nat) (name : Value α) :
    matchNode ctx (limit + 1) input active (.placeholder id name) pos =
      match ctx.bindings.target? id with
      | none => ctx.shownAs id name .unresolved
      | some target =>
        if (id, pos) ∈ active then ctx.shownAs id name (.leftRecursion · pos)
        else matchNode ctx limit input ((id, pos) :: active) target pos := rfl

variable {id : Nat} {name : Value α} {target : Node α}

theorem matchNode_unbound (h : ctx.bindings.target? id = none) :
    matchNode ctx (limit + 1) input active (.placeholder id name) pos =
      ctx.shownAs id name .unresolved := by
  rw [matchNode_placeholder, h]

theorem matchNode_reentered (h : ctx.bindings.target? id = some target)
    (hactive : (id, pos) ∈ active) :
    matchNode ctx (limit + 1) input active (.placeholder id name) pos =
      ctx.shownAs id name (.leftRecursion · pos) := by
  rw [matchNode_placeholder, h]
  exact if_pos hactive

theorem matchNode_entered (h : ctx.bindings.target? id = some target)
    (hactive : (id, pos) ∉ active) :
    matchNode ctx (limit + 1) input active (.placeholder id name) pos =
      matchNode ctx limit input ((id, pos) :: active) target pos := by
  rw [matchNode_placeholder, h]
  exact if_neg hactive

end Equations

/-- The nodes that are matched on their own, without a part or a target. -/
def Node.IsLeaf : Node α → Prop
  | .literal _ | .range .. | .empty _ | .bare | .stray _ | .looseLiteral _ | .looseRange .. =>
    True
  | _ => False

section Levels

variable {S : Value α → Int → Prop} {F : ParseError α → Prop} {X : Fault → Prop} {I : Int → Prop}
  {ctx : Context α} {limit : Nat} {input : Input} {active : Active} {node : Node α} {pos : Int}

theorem shownAs_meets_of_describe {id : Nat} {name : Value α} {fault : Text → Fault}
    (hdescribe : ∀ f, (Node.placeholder id name).describe ctx.bindings.isBound 0 = .error f → X f)
    (hfault : ∀ t, X (fault t)) : (ctx.shownAs id name fault).Meets S F X := by
  unfold Context.shownAs
  cases h : (Node.placeholder id name).describe ctx.bindings.isBound 0 with
  | ok t => exact hfault t
  | error f => exact hdescribe f h

theorem shownAs_meets {id : Nat} {name : Value α} {fault : Text → Fault}
    (hdescribed : ∀ f : Fault, f.IsDescriptive → X f) (hfault : ∀ t, X (fault t)) :
    (ctx.shownAs id name fault).Meets S F X :=
  shownAs_meets_of_describe (fun f hf => hdescribed f (described_node _ _ _ f hf)) hfault

/-- One level of a match: what the matches below it keep, it keeps. Of the faults of
descriptions only those count that the node or one of its parts has. -/
theorem matchNode_meets_of_describe (hpos : I pos)
    (hdescribe : ∀ n, n = node ∨ n ∈ node.parts → ∀ depth f,
      n.describe ctx.bindings.isBound depth = .error f → X f)
    (hunresolved : ∀ t, X (.unresolved t)) (hleft : ∀ t, X (.leftRecursion t pos))
    (hleaf : node.IsLeaf → (matchNode ctx (limit + 1) input active node pos).Meets
      (fun _ stop => I stop) (fun _ => True) X)
    (hpart : ∀ n ∈ node.parts, ∀ p, I p → (matchNode ctx limit input active n p).Meets
      (fun _ stop => I stop) (fun _ => True) X)
    (htarget : ∀ id name target, node = .placeholder id name →
      ctx.bindings.target? id = some target → (id, pos) ∉ active →
      (matchNode ctx limit input ((id, pos) :: active) target pos).Meets
        (fun _ stop => I stop) (fun _ => True) X)
    (hact : ∀ item act v stop, node = .action item act → I stop →
      (ctx.finish limit act v pos stop).Meets (fun _ stop => I stop) (fun _ => True) X) :
    (matchNode ctx (limit + 1) input active node pos).Meets
      (fun _ stop => I stop) (fun _ => True) X := by
  cases node with
  | sequence items =>
      rw [matchNode_sequence, Outcome.meets_map]
      exact matchAll_meets hpart hpos
  | choice alternatives =>
      rw [matchNode_choice, Outcome.meets_mapError]
      refine (matchFirst_meets fun n hn => hpart n hn pos hpos).imp (fun _ _ h => h)
        (fun _ _ => trivial) (fun _ h => h)
  | many item =>
      rw [matchNode_many, Outcome.meets_map]
      exact matchMany_meets (hpart item (by simp [Node.parts])) hpos
  | exclusion item forbidden =>
      rw [matchNode_exclusion]
      refine Outcome.meets_andThen (hpart item (by simp [Node.parts]) pos hpos)
        fun v stop hstop => ?_
      have hf := hpart forbidden (by simp [Node.parts]) pos hpos
      cases h : matchNode ctx limit input active forbidden pos with
      | failure e => exact hstop
      | fault f => rw [h] at hf; exact hf
      | success w q =>
          simp only [failShowing]
          cases ht : forbidden.describe ctx.bindings.isBound Node.usualDepth with
          | ok t => exact trivial
          | error f => exact hdescribe forbidden (by simp [Node.parts]) _ f ht
  | capture label item =>
      rw [matchNode_capture, Outcome.meets_mapError, Outcome.meets_map]
      exact hpart item (by simp [Node.parts]) pos hpos
  | action item act =>
      rw [matchNode_action]
      exact Outcome.meets_andThen (hpart item (by simp [Node.parts]) pos hpos)
        fun v stop hstop => hact item act v stop rfl hstop
  | placeholder id name =>
      cases ht : ctx.bindings.target? id with
      | none =>
          rw [matchNode_unbound ht]
          exact shownAs_meets_of_describe (hdescribe _ (.inl rfl) 0) hunresolved
      | some target =>
          by_cases hactive : (id, pos) ∈ active
          · rw [matchNode_reentered ht hactive]
            exact shownAs_meets_of_describe (hdescribe _ (.inl rfl) 0) hleft
          · rw [matchNode_entered ht hactive]
            exact htarget id name target rfl ht hactive
  | bare | literal _ | range _ _ | empty _ | stray _ | looseLiteral _ | looseRange _ _ =>
      exact hleaf trivial

/-- One level of a match: what the matches below it keep, it keeps. -/
theorem matchNode_meets_succ (hpos : I pos)
    (hdescribed : ∀ f : Fault, f.IsDescriptive → X f)
    (hunresolved : ∀ t, X (.unresolved t)) (hleft : ∀ t, X (.leftRecursion t pos))
    (hleaf : node.IsLeaf → (matchNode ctx (limit + 1) input active node pos).Meets
      (fun _ stop => I stop) (fun _ => True) X)
    (hpart : ∀ n ∈ node.parts, ∀ p, I p → (matchNode ctx limit input active n p).Meets
      (fun _ stop => I stop) (fun _ => True) X)
    (htarget : ∀ id name target, node = .placeholder id name →
      ctx.bindings.target? id = some target → (id, pos) ∉ active →
      (matchNode ctx limit input ((id, pos) :: active) target pos).Meets
        (fun _ stop => I stop) (fun _ => True) X)
    (hact : ∀ item act v stop, node = .action item act → I stop →
      (ctx.finish limit act v pos stop).Meets (fun _ stop => I stop) (fun _ => True) X) :
    (matchNode ctx (limit + 1) input active node pos).Meets
      (fun _ stop => I stop) (fun _ => True) X :=
  matchNode_meets_of_describe hpos
    (fun n _ depth f hf => hdescribed f (described_node _ n depth f hf)) hunresolved hleft hleaf
    hpart htarget hact

end Levels

/-! ## The ends of actions -/

@[simp] theorem Raised.shown_kind (kind : Kind) (t : Text) : (shown kind t).kind = kind := rfl

@[simp] theorem Raised.unshown_kind (kind : Kind) (cause : Raised) :
    (unshown kind cause).kind = kind := rfl

@[simp] theorem Raised.ofMessage_kind (kind : Kind) (message : Except Raised Text) :
    (Raised.ofMessage kind message).kind = kind := by
  cases message <;> rfl

theorem ParseError.raised_kind (e : ParseError α) (text : Option Text) :
    (e.raised text).kind = e.kind :=
  Raised.ofMessage_kind _ _

omit [Named α] in
theorem ParseError.kind_isConfig (e : ParseError α) : e.kind.isConfig = false := by
  cases e with
  | exhausted children pos labels => rfl
  | leaf reason pos labels => cases reason <;> rfl

namespace Raised

/-- The error says that the stack is at its end, or one raised while its message is made
does. -/
def EndsStack : Raised → Prop
  | shown kind _ => kind = .recursion
  | unshown kind cause => kind = .recursion ∨ (kind.isConfig = false ∧ cause.kind = .recursion)

theorem not_endsStack_of_isConfig {r : Raised} (h : r.kind.isConfig = true) : ¬ r.EndsStack := by
  cases r with
  | shown kind t => rintro rfl; cases h
  | unshown kind cause =>
      rintro (rfl | ⟨hconfig, -⟩)
      · cases h
      · cases hconfig.symm.trans h

/-- What leaves a match, other than the end of the stack, when an action raises the first
error: the error itself, or the one raised while its message is made. -/
inductive Leaves : Raised → Raised → Prop
  | config {r : Raised} : r.kind.isConfig = true → Leaves r r
  | cause {kind : Kind} {r : Raised} : kind.isConfig = false → r.kind ≠ .recursion →
    Leaves (.unshown kind r) r

/-- The error is one that a match fails with. -/
def IsPlain : Raised → Prop
  | shown kind _ => kind.isConfig = false ∧ kind ≠ .recursion
  | unshown .. => False

instance : DecidablePred IsPlain
  | shown .. => inferInstanceAs (Decidable (_ ∧ _))
  | unshown .. => inferInstanceAs (Decidable False)

end Raised

theorem Raised.IsPlain.kind_ne {r : Raised} (h : r.IsPlain) : r.kind ≠ .recursion := by
  cases r with
  | shown kind t => exact h.2
  | unshown kind cause => exact h.elim

omit [Named α] in
theorem settle_of_isPlain {kind : Kind} {t : Text} (h : (Raised.shown kind t).IsPlain) (pos : Int) :
    (settle pos (.shown kind t) : Match α) = .failure (.leaf (.transform kind t) pos []) := by
  simp [settle, Raised.message, h.1, h.2]

omit [Named α] in
theorem settle_of_endsStack {r : Raised} (h : r.EndsStack) (pos : Int) :
    (settle pos r : Match α) = .fault .tooDeep := by
  cases r with
  | shown kind t =>
      cases (show kind = .recursion from h)
      rfl
  | unshown kind cause =>
      rcases h with rfl | ⟨hconfig, hcause⟩
      · rfl
      · by_cases hkind : kind = .recursion
        · simp [settle, hkind, Fault.ofRaised]
        · simp [settle, Raised.message, hconfig, hkind, Fault.ofRaised, hcause]

omit [Named α] in
/-- What an error of an action amounts to. -/
theorem settle_cases (pos : Int) (r : Raised) :
    (∃ kind t, r = .shown kind t ∧ r.IsPlain) ∨ r.EndsStack ∨
      ∃ r', r.Leaves r' ∧ (settle pos r : Match α) = .fault (.uncaught r') := by
  cases hconfig : r.kind.isConfig with
  | true =>
      have hkind : r.kind ≠ .recursion := fun h => by rw [h] at hconfig; cases hconfig
      exact .inr (.inr ⟨r, .config hconfig, by simp [settle, hconfig, Fault.ofRaised, hkind]⟩)
  | false =>
      cases r with
      | shown kind t =>
          by_cases hkind : kind = .recursion
          · exact .inr (.inl hkind)
          · exact .inl ⟨kind, t, rfl, hconfig, hkind⟩
      | unshown kind cause =>
          by_cases hends : (Raised.unshown kind cause).EndsStack
          · exact .inr (.inl hends)
          · obtain ⟨hkind, hcause⟩ : kind ≠ .recursion ∧ cause.kind ≠ .recursion :=
              ⟨fun h => hends (.inl h), fun h => hends (.inr ⟨hconfig, h⟩)⟩
            refine .inr (.inr ⟨cause, .cause hconfig hcause, ?_⟩)
            rw [Raised.unshown_kind] at hconfig
            simp [settle, Raised.message, hconfig, hkind, Fault.ofRaised, hcause]

section Ends

variable {S : Value α → Int → Prop} {X : Fault → Prop} {ctx : Context α} {limit : Nat} {pos : Int}

omit [Named α] in
theorem settle_meets {r : Raised} (hleaves : ∀ r', r.Leaves r' → X (.uncaught r'))
    (hdeep : r.EndsStack → X .tooDeep) :
    (settle pos r : Match α).Meets S (fun _ => True) X := by
  rcases settle_cases (α := α) pos r with ⟨kind, t, rfl, hplain⟩ | hends | ⟨r', hr, h⟩
  · rw [settle_of_isPlain hplain]
    exact trivial
  · rw [settle_of_endsStack hends]
    exact hdeep hends
  · rw [h]
    exact hleaves r' hr

/-- An action either stops where its item did, or has a fault. Apart from the end of the
stack the fault is one about the grammar, which the action raised or which ended a parse
that it started, or else the message of an error could not be made. -/
theorem finish_meets {act : α} {v : Value α} {stop : Int} (hstop : ∀ w, S w stop)
    (hdeep : X .tooDeep)
    (hraised : ∀ r r', ctx.perform act v = .raised r → r.Leaves r' → X (.uncaught r'))
    (hparse : ∀ inner text f, ctx.perform act v = .parse inner text →
      parseInside ctx limit inner text = .error (.fault f) → f.isConfig = true → X f)
    (hunshown : ∀ inner text halt r', ctx.perform act v = .parse inner text →
      parseInside ctx limit inner text = .error halt → halt.raised.kind.isConfig = false →
      halt.raised.Leaves r' → X (.uncaught r')) :
    (ctx.finish limit act v pos stop).Meets S (fun _ => True) X := by
  unfold Context.finish
  cases hp : ctx.perform act v with
  | value w => exact hstop w
  | raised r => exact settle_meets (hraised r · hp) fun _ => hdeep
  | parse inner text =>
      simp only []
      cases hi : parseInside ctx limit inner text with
      | ok w => exact hstop w
      | error halt =>
          have hsettle (hconfig : halt.raised.kind.isConfig = false) :
              (settle pos halt.raised : Match α).Meets S (fun _ => True) X :=
            settle_meets (hunshown inner text halt · hp hi hconfig) fun _ => hdeep
          cases halt with
          | refused e t =>
              exact hsettle ((congrArg Kind.isConfig (e.raised_kind _)).trans e.kind_isConfig)
          | fault f =>
              simp only [settleHalt]
              split
              · next h => exact hparse inner text f hp hi h
              · next h => exact hsettle (Bool.eq_false_iff.mpr h)

end Ends

/-! ## At the top -/

omit [Named α] in
theorem Outcome.toAttempt_eq_matched {o : Match α} {text : Text} {pos n : Int} {v : Value α} :
    o.toAttempt text pos = .ok (.matched v n) ↔ o = .success v (pos + n) := by
  cases o with
  | success w stop =>
      simp only [toAttempt, Except.ok.injEq, Attempt.matched.injEq, success.injEq]
      exact and_congr_right fun _ => by omega
  | failure e => simp [toAttempt]
  | fault f => cases f <;> simp [toAttempt]

omit [Named α] in
theorem Outcome.toAttempt_eq_failed {o : Match α} {text : Text} {pos : Int} {e : ParseError α} :
    o.toAttempt text pos = .ok (.failed e) ↔ o = .failure e := by
  cases o with
  | success w stop => simp [toAttempt]
  | failure e => simp [toAttempt]
  | fault f => cases f <;> simp [toAttempt]

omit [Named α] in
/-- An attempt reports the fault of its match, unless that is the end of the stack. -/
theorem Outcome.toAttempt_fault {o : Match α} {text : Text} {pos : Int} {f : Fault}
    (h : o.toAttempt text pos = .error (.fault f)) : o = .fault f ∧ f ≠ .tooDeep := by
  cases o with
  | success v stop => cases h
  | failure e => cases h
  | fault g => cases g <;> cases h <;> exact ⟨rfl, nofun⟩

omit [Named α] in
/-- An attempt is refused for one reason only. -/
theorem Outcome.toAttempt_eq_refused {o : Match α} {text t : Text} {pos : Int}
    {e : ParseError α} : o.toAttempt text pos = .error (.refused e t) ↔
      o = .fault .tooDeep ∧ e = .leaf .tooDeep pos [] ∧ t = text := by
  cases o with
  | success v stop => simp [toAttempt]
  | failure e' => simp [toAttempt]
  | fault f => cases f <;> simp [toAttempt, eq_comm]

omit [Named α] in
/-- A whole parse has no fault but that of its attempt. -/
theorem complete_fault {d : Except (Halt α) (Attempt α)} {text : Text} {f : Fault}
    (h : (d >>= (·.complete text)) = .error (.fault f)) : d = .error (.fault f) := by
  cases d with
  | error halt => cases h; rfl
  | ok a =>
      cases a with
      | failed e => cases h
      | matched v consumed =>
          simp only [bind, Except.bind, Attempt.complete] at h
          split at h <;> cases h

theorem parseInside_fault {ctx : Context α} {limit : Nat} {node : Node α} {t : Text} {f : Fault}
    (h : parseInside ctx (limit + 1) node t = .error (.fault f)) :
    matchNode ctx limit (.ofText t) [] node 0 = .fault f ∧ f ≠ .tooDeep := by
  rw [parseInside] at h
  exact Outcome.toAttempt_fault (complete_fault h)

end Peg
