import Peg.Proofs.ErrorTree

/-!
# The trail of labels

A match adds the label of a capture to an error that leaves the capture. What an error is
labelled with in the end can be said without following it on its way up: it is the captures
that were entered since the last choice, the innermost first, for a choice puts the errors of
its alternatives into a new one, and labels reach only that.

`stampNode` is a match that works the other way round. It carries this list, the *trail*,
down to where errors are created, stamps it on an error there and then, and touches no error
later. Both ways lead to the same outcome (`stampNode_eq`): on the way up the labels come one
by one in the order in which the trail holds them. So nothing that is given up on the way, by
a choice, by a repetition or by an exclusion, can leave a label behind.
-/

namespace Peg

variable {α : Type}

/-! ## Stamps -/

namespace ParseError

/-- The error with the trail for its labels. -/
def stamp (trail : List (Value α)) : ParseError α → ParseError α
  | leaf reason pos _ => leaf reason pos trail
  | exhausted children pos _ => exhausted children pos trail

/-- The error after it left the captures of the trail, the first of them first. -/
def addLabels (trail : List (Value α)) : ParseError α → ParseError α
  | leaf reason pos labels => leaf reason pos (labels ++ trail)
  | exhausted children pos labels => exhausted children pos (labels ++ trail)

theorem addLabels_nil (e : ParseError α) : e.addLabels [] = e := by
  cases e <;> simp [addLabels]

theorem addLabels_addLabel (trail : List (Value α)) (label : Value α) (e : ParseError α) :
    (e.addLabel label).addLabels trail = e.addLabels (label :: trail) := by
  cases e <;> simp [addLabel, addLabels]

/-- A new error is stamped with the labels that it is going to have. -/
theorem stamp_eq_addLabels {e : ParseError α} (h : e.labels = []) (trail : List (Value α)) :
    e.stamp trail = e.addLabels trail := by
  cases e with
  | leaf reason pos labels => obtain rfl : labels = [] := h; rfl
  | exhausted children pos labels => obtain rfl : labels = [] := h; rfl

end ParseError

/-! ## Errors on their way up -/

namespace Outcome

variable {β γ ε ε' : Type}

theorem map_mapError {g : ε → ε'} {h : β → γ} {o : Outcome ε β} :
    (o.mapError g).map h = (o.map h).mapError g := by
  cases o <;> rfl

theorem mapError_andThen {g : ε → ε'} {o : Outcome ε β} {next : β → Int → Outcome ε γ}
    {next' : β → Int → Outcome ε' γ} (h : ∀ v stop, next' v stop = (next v stop).mapError g) :
    (o.mapError g).andThen next' = (o.andThen next).mapError g := by
  cases o with
  | success v stop => exact h v stop
  | failure e => rfl
  | fault f => rfl

theorem mapError_addLabels_nil {o : Outcome (ParseError α) β} :
    o.mapError (.addLabels []) = o := by
  cases o <;> simp [mapError, ParseError.addLabels_nil]

end Outcome

variable {f : ParseError α → ParseError α}

theorem matchAll_mapError (step : Node α → Int → Match α) (items : List (Node α)) (pos : Int) :
    matchAll (fun n p => (step n p).mapError f) items pos =
      (matchAll step items pos).mapError f := by
  induction items generalizing pos with
  | nil => rfl
  | cons n ns ih =>
      rw [matchAll, matchAll]
      cases step n pos with
      | success v stop =>
          show (matchAll _ ns stop).map _ = ((matchAll step ns stop).map _).mapError f
          rw [ih, Outcome.map_mapError]
      | failure e => rfl
      | fault g => rfl

/-- A repetition has no use for errors. -/
theorem matchMany_mapError (step : Int → Match α) (room : Nat) (pos : Int) :
    matchMany (fun p => (step p).mapError f) room pos =
      (matchMany step room pos).mapError f := by
  induction room generalizing pos with
  | zero => rfl
  | succ room ih =>
      rw [matchMany, matchMany]
      cases step pos with
      | success v stop =>
          show (if stop = pos then _ else (matchMany _ room stop).map _) =
            Outcome.mapError f (if stop = pos then _ else (matchMany step room stop).map _)
          split
          · rfl
          · rw [ih, Outcome.map_mapError]
      | failure e => rfl
      | fault g => rfl

/-! ### New errors -/

section New

variable (trail : List (Value α))

/-- Where every error is new, a stamp is as good as the labels. -/
theorem Outcome.mapError_stamp {o : Match α} (h : ∀ e, o = .failure e → e.labels = []) :
    o.mapError (ParseError.stamp trail) = o.mapError (ParseError.addLabels trail) := by
  cases o with
  | success v stop => rfl
  | failure e => exact congrArg Outcome.failure (ParseError.stamp_eq_addLabels (h e rfl) trail)
  | fault f => rfl

theorem failShowing_stamp (d : Except Fault Text) (reason : Text → Reason α) :
    (failShowing pos d reason).mapError (ParseError.stamp trail) =
      (failShowing pos d reason).mapError (ParseError.addLabels trail) :=
  Outcome.mapError_stamp trail fun e he => by
    obtain ⟨t, rfl⟩ := failShowing_failure he
    rfl

end New

/-! ## The match that stamps -/

variable [Named α]

mutual

/-- Matches a node behind a trail. -/
def stampNode (ctx : Context α) :
    (limit : Nat) → Input → Active → (trail : List (Value α)) → Node α → (pos : Int) → Match α
  | 0, _, _, _, _, _ => .fault .tooDeep
  | limit + 1, input, active, trail, node, pos =>
    match node with
    | .literal t => (matchLiteral input t pos).mapError (.stamp trail)
    | .range low high => (matchRange input low high pos).mapError (.stamp trail)
    | .sequence items => (matchAll (stampNode ctx limit input active trail) items pos).map .tuple
    | .choice alternatives =>
      (matchFirst (stampNode ctx limit input active [] · pos) alternatives).mapError
        (.exhausted · pos trail)
    | .many item =>
      (matchMany (stampNode ctx limit input active trail item) (input.room pos) pos).map .list
    | .exclusion item forbidden =>
      (stampNode ctx limit input active trail item pos).andThen fun v stop =>
        match stampNode ctx limit input active trail forbidden pos with
        | .success .. =>
          (failShowing pos (forbidden.describe ctx.bindings.isBound Node.usualDepth)
            .excluded).mapError (.stamp trail)
        | .failure _ => .success v stop
        | .fault f => .fault f
    | .capture label item =>
      (stampNode ctx limit input active (label :: trail) item pos).map (.captured label)
    | .placeholder id name =>
      match ctx.bindings.target? id with
      | none => ctx.shownAs id name .unresolved
      | some target =>
        if (id, pos) ∈ active then ctx.shownAs id name (.leftRecursion · pos)
        else stampNode ctx limit input ((id, pos) :: active) trail target pos
    | .action item act =>
      (stampNode ctx limit input active trail item pos).andThen fun v stop =>
        match ctx.perform act v with
        | .value w => .success w stop
        | .raised r => (settle pos r).mapError (.stamp trail)
        | .parse inner text =>
          match stampInside ctx limit inner text with
          | .ok w => .success w stop
          | .error h => (settleHalt pos h).mapError (.stamp trail)
    | .empty _ => .success .null pos
    | .bare => .fault (.kindless "Node")
    | .stray value => .fault (.notANode value.subject)
    | .looseLiteral text =>
      (matchLooseLiteral ctx.bindings.isBound input text pos).mapError (.stamp trail)
    | .looseRange low high => (matchLooseRange input low high pos).mapError (.stamp trail)

/-- Parses a whole text from inside an action, behind a trail of its own. -/
def stampInside (ctx : Context α) :
    (limit : Nat) → Node α → Text → Except (Halt α) (Value α)
  | 0, _, _ => .error (.fault .tooDeep)
  | limit + 1, node, text => do
    let attempt ← (stampNode ctx limit (Input.ofText text) [] [] node 0).toAttempt text 0
    attempt.complete text

end

/-- The attempt that stamps. -/
def stampAttempt (ctx : Context α) (limit : Nat) (node : Node α) (text : Text) (pos : Int) :
    Except (Halt α) (Attempt α) :=
  (stampNode ctx limit (Input.ofText text) [] [] node pos).toAttempt text pos

/-! ## Both ways -/

section Both

variable {ctx : Context α} {limit : Nat} {input : Input} {active : Active} {trail : List (Value α)}
  {node : Node α} {pos : Int}

theorem stampNode_zero : stampNode ctx 0 input active trail node pos = .fault .tooDeep := rfl

theorem stampNode_sequence (items : List (Node α)) :
    stampNode ctx (limit + 1) input active trail (.sequence items) pos =
      (matchAll (stampNode ctx limit input active trail) items pos).map .tuple := rfl

theorem stampNode_choice (alternatives : List (Node α)) :
    stampNode ctx (limit + 1) input active trail (.choice alternatives) pos =
      (matchFirst (stampNode ctx limit input active [] · pos) alternatives).mapError
        (.exhausted · pos trail) := rfl

theorem stampNode_many (item : Node α) :
    stampNode ctx (limit + 1) input active trail (.many item) pos =
      (matchMany (stampNode ctx limit input active trail item) (input.room pos) pos).map .list :=
  rfl

theorem stampNode_exclusion (item forbidden : Node α) :
    stampNode ctx (limit + 1) input active trail (.exclusion item forbidden) pos =
      (stampNode ctx limit input active trail item pos).andThen fun v stop =>
        match stampNode ctx limit input active trail forbidden pos with
        | .success .. =>
          (failShowing pos (forbidden.describe ctx.bindings.isBound Node.usualDepth)
            .excluded).mapError (.stamp trail)
        | .failure _ => .success v stop
        | .fault f => .fault f := rfl

theorem stampNode_capture (label : Value α) (item : Node α) :
    stampNode ctx (limit + 1) input active trail (.capture label item) pos =
      (stampNode ctx limit input active (label :: trail) item pos).map (.captured label) := rfl

theorem stampNode_action (item : Node α) (act : α) :
    stampNode ctx (limit + 1) input active trail (.action item act) pos =
      (stampNode ctx limit input active trail item pos).andThen fun v stop =>
        match ctx.perform act v with
        | .value w => .success w stop
        | .raised r => (settle pos r).mapError (.stamp trail)
        | .parse inner text =>
          match stampInside ctx limit inner text with
          | .ok w => .success w stop
          | .error h => (settleHalt pos h).mapError (.stamp trail) := rfl

theorem stampNode_placeholder (id : Nat) (name : Value α) :
    stampNode ctx (limit + 1) input active trail (.placeholder id name) pos =
      match ctx.bindings.target? id with
      | none => ctx.shownAs id name .unresolved
      | some target =>
        if (id, pos) ∈ active then ctx.shownAs id name (.leftRecursion · pos)
        else stampNode ctx limit input ((id, pos) :: active) trail target pos := rfl

section New

variable (trail)

theorem finish_stamp (act : α) (v : Value α) (stop : Int) :
    (ctx.finish limit act v pos stop).mapError (ParseError.stamp trail) =
      (ctx.finish limit act v pos stop).mapError (ParseError.addLabels trail) :=
  Outcome.mapError_stamp trail fun e he => by
    obtain ⟨kind, t, rfl⟩ := finish_failure he
    rfl

theorem stampNode_leaf (hleaf : node.IsLeaf) :
    stampNode ctx (limit + 1) input active trail node pos =
      (matchNode ctx (limit + 1) input active node pos).mapError (ParseError.addLabels trail) := by
  have hnew : ∀ e, matchNode ctx (limit + 1) input active node pos = .failure e →
      e.labels = [] := by
    intro e he
    obtain ⟨expected, found, rfl⟩ := matchLeaf_failure he hleaf
    rfl
  rw [← Outcome.mapError_stamp trail hnew]
  cases node <;> first | rfl | exact hleaf.elim

end New

/-- One level: if both ways agree on what a match of the node starts, they agree on it. -/
theorem stampNode_succ
    (hpart : ∀ active trail, stampNode ctx limit input active trail =
      fun n p => (matchNode ctx limit input active n p).mapError (ParseError.addLabels trail))
    (hinside : stampInside ctx limit = parseInside ctx limit) :
    stampNode ctx (limit + 1) input active trail node pos =
      (matchNode ctx (limit + 1) input active node pos).mapError (ParseError.addLabels trail) := by
  cases node with
  | sequence items =>
      rw [stampNode_sequence, matchNode_sequence, hpart, matchAll_mapError, Outcome.map_mapError]
  | choice alternatives =>
      -- An alternative starts with no trail, and so its errors are as they were.
      rw [stampNode_choice, matchNode_choice, hpart, Outcome.mapError_mapError]
      simp only [Outcome.mapError_addLabels_nil]
      rfl
  | many item =>
      rw [stampNode_many, matchNode_many, hpart, matchMany_mapError, Outcome.map_mapError]
  | exclusion item forbidden =>
      rw [stampNode_exclusion, matchNode_exclusion, hpart]
      refine Outcome.mapError_andThen fun v stop => ?_
      beta_reduce
      cases matchNode ctx limit input active forbidden pos with
      | failure e => rfl
      | fault f => rfl
      | success w q => exact failShowing_stamp trail _ _
  | capture label item =>
      rw [stampNode_capture, matchNode_capture, hpart, Outcome.mapError_mapError,
        Outcome.map_mapError]
      congr 1
      funext e
      exact (e.addLabels_addLabel trail label).symm
  | action item act =>
      rw [stampNode_action, matchNode_action, hpart, hinside]
      refine Outcome.mapError_andThen fun v stop => ?_
      rw [← finish_stamp, Context.finish]
      cases ctx.perform act v with
      | value w => rfl
      | raised r => rfl
      | parse inner text =>
          simp only []
          cases parseInside ctx limit inner text <;> rfl
  | placeholder id name =>
      have hshown : ∀ fault : Text → Fault, (ctx.shownAs id name fault).mapError
          (ParseError.addLabels trail) = ctx.shownAs id name fault := by
        intro fault
        unfold Context.shownAs
        split <;> rfl
      rw [stampNode_placeholder, matchNode_placeholder, hpart]
      cases ctx.bindings.target? id with
      | none => exact (hshown _).symm
      | some target =>
          by_cases hactive : (id, pos) ∈ active
          · simp only [hactive, if_true]
            exact (hshown _).symm
          · simp only [hactive, if_false]
  | bare | literal _ | range _ _ | empty _ | stray _ | looseLiteral _ | looseRange _ _ =>
      exact stampNode_leaf trail trivial

/-- A match that stamps ends as a match does, after its error left the captures of the
trail. -/
theorem stampNode_eq (ctx : Context α) (limit : Nat) :
    (∀ input active trail, stampNode ctx limit input active trail = fun node pos =>
      (matchNode ctx limit input active node pos).mapError (ParseError.addLabels trail)) ∧
    stampInside ctx limit = parseInside ctx limit := by
  induction limit with
  | zero =>
      refine ⟨fun input active trail => ?_, ?_⟩
      · funext node pos
        rw [stampNode_zero, matchNode_zero]
        rfl
      · funext node text
        rw [stampInside, parseInside]
  | succ limit ih =>
      refine ⟨fun input active trail => ?_, ?_⟩
      · funext node pos
        exact stampNode_succ (ih.1 input) ih.2
      · funext node text
        simp only [stampInside, parseInside, ih.1, Outcome.mapError_addLabels_nil]

end Both

/-- Labels that are added on the way up are those that a match would have stamped on its
errors, all over the tree. -/
theorem attempt_eq_stampAttempt (ctx : Context α) (limit : Nat) (node : Node α) (text : Text)
    (pos : Int) : attempt ctx limit node text pos = stampAttempt ctx limit node text pos := by
  simp only [attempt, stampAttempt, (stampNode_eq ctx limit).1, Outcome.mapError_addLabels_nil]

/-- The label of a capture is on the choice inside of it, and not on what the choice
consists of. -/
example : stampAttempt Months.context 16 Months.month "1" 0 = .ok (.failed Months.short) := rfl

end Peg
