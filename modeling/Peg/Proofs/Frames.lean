import Peg.Proofs.Position

/-!
# The matches that a match starts

A match is a call, and the matches that it starts are the calls below it on the stack.
`Frame` is such a call: what is matched, where, and how many levels are left. One match
*starts* another directly, and *visits* all that are started below it. Not every part of
a node is started: a choice stops at the first alternative that does not fail, and what
is excluded is looked at only after the item matched. Which parts a loop comes to is
computed by `triedAll`, `triedFirst` and `triedMany`.

An action can start a parse of its own. That is a match from the start of another text,
and it is kept apart from the others, because its end is not handed on as it is.

What a match makes of the ends of the matches that it starts is said here once. A fault
of any of them is its own fault, and conversely a fault is that of a started match, or an
action ended in it, or it is the node's own. An error is that of a started match, with the
label of a capture or without, or the match *creates* it: a leaf that does not match, an
exclusion, an action and a choice do.
-/

namespace Peg

variable {α : Type}

/-! ## What a loop tries -/

/-- The items that a sequence comes to, and where. -/
def triedAll (step : Node α → Int → Match α) : List (Node α) → Int → List (Node α × Int)
  | [], _ => []
  | n :: ns, pos =>
    (n, pos) ::
      match step n pos with
      | .success _ stop => triedAll step ns stop
      | _ => []

/-- The alternatives that a choice comes to. -/
def triedFirst (step : Node α → Match α) : List (Node α) → List (Node α)
  | [] => []
  | n :: ns =>
    n ::
      match step n with
      | .failure _ => triedFirst step ns
      | _ => []

/-- The positions at which a repetition tries its item. -/
def triedMany (step : Int → Match α) : (room : Nat) → Int → List Int
  | 0, _ => []
  | room + 1, pos =>
    pos ::
      match step pos with
      | .success _ stop => if stop = pos then [] else triedMany step room stop
      | _ => []

section Loops

variable {items alternatives : List (Node α)} {pos : Int} {φ : Fault}

theorem matchAll_eq_fault {step : Node α → Int → Match α} :
    matchAll step items pos = .fault φ ↔
      ∃ x ∈ triedAll step items pos, step x.1 x.2 = .fault φ := by
  induction items generalizing pos with
  | nil => simp [matchAll, triedAll]
  | cons n ns ih =>
      rw [matchAll, triedAll, Outcome.andThen_eq_fault]
      cases h : step n pos <;> simp [h, ih]

theorem matchAll_eq_failure {step : Node α → Int → Match α} {e : ParseError α} :
    matchAll step items pos = .failure e ↔
      ∃ x ∈ triedAll step items pos, step x.1 x.2 = .failure e := by
  induction items generalizing pos with
  | nil => simp [matchAll, triedAll]
  | cons n ns ih =>
      rw [matchAll, triedAll, Outcome.andThen_eq_failure]
      cases h : step n pos <;> simp [h, ih]

theorem matchFirst_eq_fault {step : Node α → Match α} :
    matchFirst step alternatives = .fault φ ↔
      ∃ n ∈ triedFirst step alternatives, step n = .fault φ := by
  induction alternatives with
  | nil => simp [matchFirst, triedFirst]
  | cons n ns ih =>
      rw [matchFirst, triedFirst]
      cases h : step n <;> simp [h, ih]

/-- A choice that fails came to every alternative, and has the error of each. -/
theorem matchFirst_failure {step : Node α → Match α} {es : List (ParseError α)}
    (h : matchFirst step alternatives = .failure es) :
    List.Forall₂ (fun n e => n ∈ triedFirst step alternatives ∧ step n = .failure e)
      alternatives es := by
  induction alternatives generalizing es with
  | nil => cases h; exact .nil
  | cons n ns ih =>
      rw [matchFirst] at h
      rw [triedFirst]
      cases hn : step n with
      | success v stop => rw [hn] at h; cases h
      | fault f => rw [hn] at h; cases h
      | failure e =>
          rw [hn] at h
          obtain ⟨es, hes, rfl⟩ := Outcome.mapError_eq_failure.mp h
          exact .cons ⟨List.mem_cons_self, hn⟩
            ((ih hes).imp fun _ _ hm => ⟨List.mem_cons_of_mem _ hm.1, hm.2⟩)

theorem matchMany_eq_fault {step : Int → Match α} {room : Nat} :
    matchMany step room pos = .fault φ ↔ ∃ p ∈ triedMany step room pos, step p = .fault φ := by
  induction room generalizing pos with
  | zero => simp [matchMany, triedMany]
  | succ room ih =>
      rw [matchMany, triedMany]
      cases h : step pos with
      | success v stop =>
          by_cases hrests : stop = pos
          · simp [h, hrests]
          · simp [h, hrests, ih]
      | failure e => simp [h]
      | fault f => simp [h]

theorem matchMany_ne_failure {step : Int → Match α} {room : Nat} {e : ParseError α} :
    matchMany step room pos ≠ .failure e := by
  induction room generalizing pos with
  | zero => simp [matchMany]
  | succ room ih =>
      rw [matchMany]
      cases h : step pos with
      | success v stop =>
          by_cases hrests : stop = pos
          · simp [hrests]
          · simp [hrests, ih]
      | failure e => simp
      | fault f => simp

theorem mem_items_of_tried {step : Node α → Int → Match α} {x : Node α × Int}
    (h : x ∈ triedAll step items pos) : x.1 ∈ items := by
  induction items generalizing pos with
  | nil => cases h
  | cons n ns ih =>
      rw [triedAll] at h
      rcases List.mem_cons.mp h with rfl | h
      · exact List.mem_cons_self
      · cases hs : step n pos <;> rw [hs] at h
        · exact List.mem_cons_of_mem _ (ih h)
        · cases h
        · cases h

theorem mem_alternatives_of_tried {step : Node α → Match α} {n : Node α}
    (h : n ∈ triedFirst step alternatives) : n ∈ alternatives := by
  induction alternatives with
  | nil => cases h
  | cons m ms ih =>
      rw [triedFirst] at h
      rcases List.mem_cons.mp h with rfl | h
      · exact List.mem_cons_self
      · cases hs : step m <;> rw [hs] at h
        · cases h
        · exact List.mem_cons_of_mem _ (ih h)
        · cases h

variable {I : Int → Prop}

/-- A sequence comes to its items where the items before stop. -/
theorem triedAll_pos {step : Node α → Int → Match α} (hpos : I pos)
    (hstep : ∀ n ∈ items, ∀ p, I p →
      (step n p).Meets (fun _ stop => I stop) (fun _ => True) (fun _ => True))
    {x : Node α × Int} (h : x ∈ triedAll step items pos) : I x.2 := by
  induction items generalizing pos with
  | nil => cases h
  | cons n ns ih =>
      have hn := hstep n (by simp) pos hpos
      rw [triedAll] at h
      rcases List.mem_cons.mp h with rfl | h
      · exact hpos
      · cases hs : step n pos <;> rw [hs] at h hn
        · exact ih hn (fun m hm => hstep m (by simp [hm])) h
        · cases h
        · cases h

theorem triedMany_pos {step : Int → Match α} {room : Nat} (hpos : I pos)
    (hstep : ∀ p, I p →
      (step p).Meets (fun _ stop => I stop) (fun _ => True) (fun _ => True))
    {p : Int} (h : p ∈ triedMany step room pos) : I p := by
  induction room generalizing pos with
  | zero => cases h
  | succ room ih =>
      have hn := hstep pos hpos
      rw [triedMany] at h
      rcases List.mem_cons.mp h with rfl | h
      · exact hpos
      · cases hs : step pos <;> rw [hs] at h hn
        · simp only [] at h
          split at h
          · cases h
          · exact ih hn h
        · cases h
        · cases h

end Loops

/-! ## Actions that return -/

section Returns

variable [Named α]

/-- What the action makes of a result is a value, or a parse that gives a value. -/
def Context.Returns (ctx : Context α) (limit : Nat) (act : α) (v : Value α) : Prop :=
  match ctx.perform act v with
  | .value _ => True
  | .raised _ => False
  | .parse inner text => ∃ w, parseInside ctx limit inner text = .ok w

theorem Context.Returns.finish {ctx : Context α} {limit : Nat} {act : α} {v : Value α}
    (h : ctx.Returns limit act v) (pos stop : Int) :
    ∃ w, ctx.finish limit act v pos stop = .success w stop := by
  unfold Context.Returns at h
  unfold Context.finish
  cases hp : ctx.perform act v with
  | value w => exact ⟨w, rfl⟩
  | raised r => rw [hp] at h; exact h.elim
  | parse inner text =>
      rw [hp] at h
      obtain ⟨w, hw⟩ := h
      exact ⟨w, by simp only [hw]⟩

end Returns

/-! ## Frames -/

/-- A match on the stack. -/
structure Frame (α : Type) where
  limit : Nat
  input : Input
  active : Active
  node : Node α
  pos : Int

namespace Frame

/-- The match that an attempt is. -/
def top (limit : Nat) (node : Node α) (text : Text) (pos : Int) : Frame α :=
  ⟨limit, .ofText text, [], node, pos⟩

variable [Named α]

def outcome (ctx : Context α) (f : Frame α) : Match α :=
  matchNode ctx f.limit f.input f.active f.node f.pos

theorem outcome_top (ctx : Context α) (limit : Nat) (node : Node α) (text : Text) (pos : Int) :
    (top limit node text pos).outcome ctx = matchNode ctx limit (.ofText text) [] node pos := rfl

theorem outcome_of_failed {ctx : Context α} {limit : Nat} {node : Node α} {text : Text}
    {pos : Int} {e : ParseError α} (h : attempt ctx limit node text pos = .ok (.failed e)) :
    (top limit node text pos).outcome ctx = .failure e :=
  Outcome.toAttempt_eq_failed.mp h

/-- The first match starts the second, one level below it. -/
inductive Starts (ctx : Context α) : Frame α → Frame α → Prop
  | item {limit input active items pos n p} :
    (n, p) ∈ triedAll (matchNode ctx limit input active) items pos →
    Starts ctx ⟨limit + 1, input, active, .sequence items, pos⟩ ⟨limit, input, active, n, p⟩
  | alternative {limit input active alternatives pos n} :
    n ∈ triedFirst (matchNode ctx limit input active · pos) alternatives →
    Starts ctx ⟨limit + 1, input, active, .choice alternatives, pos⟩
      ⟨limit, input, active, n, pos⟩
  | round {limit input active item pos p} :
    p ∈ triedMany (matchNode ctx limit input active item) (input.room pos) pos →
    Starts ctx ⟨limit + 1, input, active, .many item, pos⟩ ⟨limit, input, active, item, p⟩
  | base {limit input active item forbidden pos} :
    Starts ctx ⟨limit + 1, input, active, .exclusion item forbidden, pos⟩
      ⟨limit, input, active, item, pos⟩
  | forbidden {limit input active item forbidden pos v stop} :
    matchNode ctx limit input active item pos = .success v stop →
    Starts ctx ⟨limit + 1, input, active, .exclusion item forbidden, pos⟩
      ⟨limit, input, active, forbidden, pos⟩
  | captured {limit input active label item pos} :
    Starts ctx ⟨limit + 1, input, active, .capture label item, pos⟩
      ⟨limit, input, active, item, pos⟩
  | argument {limit input active item act pos} :
    Starts ctx ⟨limit + 1, input, active, .action item act, pos⟩
      ⟨limit, input, active, item, pos⟩
  | target {limit input active id name target pos} :
    ctx.bindings.target? id = some target → (id, pos) ∉ active →
    Starts ctx ⟨limit + 1, input, active, .placeholder id name, pos⟩
      ⟨limit, input, (id, pos) :: active, target, pos⟩

/-- The match is that of an action whose item gave the result `v` and stopped at `stop`;
`limit` levels are left for what the action starts. -/
inductive Performs (ctx : Context α) :
    Frame α → (limit : Nat) → (act : α) → (v : Value α) → (stop : Int) → Prop
  | intro {limit input active item act pos v stop} :
    matchNode ctx limit input active item pos = .success v stop →
    Performs ctx ⟨limit + 1, input, active, .action item act, pos⟩ limit act v stop

/-- The second match is the parse that the action of the first one starts. -/
inductive StartsInside (ctx : Context α) : Frame α → Frame α → Prop
  | intro {f : Frame α} {limit act v stop inner text} :
    f.Performs ctx (limit + 1) act v stop → ctx.perform act v = .parse inner text →
    StartsInside ctx f (.top limit inner text 0)

/-- The matches of a run, those inside parses that actions start left out. -/
def Visits (ctx : Context α) : Frame α → Frame α → Prop :=
  Relation.ReflTransGen (Starts ctx)

/-- All matches of a run, whatever nesting of parses they are inside of. -/
def Runs (ctx : Context α) : Frame α → Frame α → Prop :=
  Relation.ReflTransGen fun f g => f.Starts ctx g ∨ f.StartsInside ctx g

variable {ctx : Context α} {f g : Frame α} {limit : Nat} {act : α} {v : Value α} {stop : Int}

theorem Visits.refl : f.Visits ctx f := Relation.ReflTransGen.refl

theorem Visits.head {h : Frame α} (hstart : f.Starts ctx g) (hvisit : g.Visits ctx h) :
    f.Visits ctx h :=
  Relation.ReflTransGen.head hstart hvisit

theorem Starts.runs (h : f.Starts ctx g) : f.Runs ctx g :=
  Relation.ReflTransGen.single (.inl h)

theorem StartsInside.runs (h : f.StartsInside ctx g) : f.Runs ctx g :=
  Relation.ReflTransGen.single (.inr h)

theorem Performs.outcome_eq (h : f.Performs ctx limit act v stop) :
    f.outcome ctx = ctx.finish limit act v f.pos stop := by
  cases h with
  | intro hitem =>
      rw [outcome, matchNode_action, hitem]
      rfl

theorem Performs.node_eq (h : f.Performs ctx limit act v stop) :
    ∃ item, f.node = .action item act := by
  cases h with
  | intro => exact ⟨_, rfl⟩

/-! ### What a started match keeps -/

theorem Starts.limit_eq (h : f.Starts ctx g) : f.limit = g.limit + 1 := by
  cases h <;> rfl

theorem Starts.input_eq (h : f.Starts ctx g) : g.input = f.input := by
  cases h <;> rfl

theorem Starts.leads (h : f.Starts ctx g) : ctx.bindings.Leads f.node g.node := by
  cases h with
  | item h => exact .part (mem_items_of_tried h)
  | alternative h => exact .part (mem_alternatives_of_tried h)
  | target ht _ => exact .target ht
  | round _ | base | forbidden _ | captured | argument => exact .part (by simp [Node.parts])

theorem Visits.input_eq (h : f.Visits ctx g) : g.input = f.input := by
  induction h with
  | refl => rfl
  | tail _ hstart ih => rw [hstart.input_eq, ih]

theorem Visits.reaches (h : f.Visits ctx g) : ctx.bindings.Reaches f.node g.node := by
  induction h with
  | refl => exact .refl
  | tail _ hstart ih => exact ih.tail hstart.leads

/-- A started match is at a position that the match which starts it has come to. -/
theorem Starts.pos_induct {I : Int → Prop} (hpos : I f.pos)
    (hstep : ∀ (limit : Nat) (active : Active) (n : Node α), n ∈ f.node.parts → ∀ p, I p →
      (matchNode ctx limit f.input active n p).Meets (fun _ stop => I stop) (fun _ => True)
        (fun _ => True))
    (h : f.Starts ctx g) : I g.pos := by
  cases h with
  | item h => exact triedAll_pos hpos (hstep _ _) h
  | round h => exact triedMany_pos hpos (hstep _ _ _ (by simp [Node.parts])) h
  | alternative _ | base | forbidden _ | captured | argument | target _ _ => exact hpos

theorem Starts.le_pos (h : f.Starts ctx g) : f.pos ≤ g.pos :=
  h.pos_induct (I := fun p => f.pos ≤ p) (Int.le_refl _) fun limit active n _ p hp =>
    (matchNode_le_stop ctx f.input limit active n p).imp (fun _ _ h => Int.le_trans hp h)
      (fun _ h => h) (fun _ h => h)

theorem Visits.le_pos (h : f.Visits ctx g) : f.pos ≤ g.pos := by
  induction h with
  | refl => exact Int.le_refl _
  | tail _ hstart ih => exact Int.le_trans ih hstart.le_pos

theorem Starts.pos_le (hinside : ctx.bindings.KeepsInside f.node) (h : f.Starts ctx g) :
    f.pos ≤ g.pos ∧ g.pos ≤ max f.pos f.input.size := by
  refine h.pos_induct (I := fun p => f.pos ≤ p ∧ p ≤ max f.pos f.input.size) (by omega)
    fun limit active n hn p hp => ?_
  have hn' : ctx.bindings.KeepsInside n := fun m hm => hinside m (.head (.part hn) hm)
  refine (matchNode_stop ctx f.input limit active n p hn').imp (fun v stop h => ?_)
    (fun _ h => h) (fun _ h => h)
  omega

theorem Visits.pos_le (hinside : ctx.bindings.KeepsInside f.node) (h : f.Visits ctx g) :
    f.pos ≤ g.pos ∧ g.pos ≤ max f.pos f.input.size := by
  induction h with
  | refl => omega
  | @tail g h hvisit hstart ih =>
      have hinside' : ctx.bindings.KeepsInside g.node := fun m hm =>
        hinside m ((Visits.reaches hvisit).trans hm)
      have hnext := hstart.pos_le hinside'
      rw [Visits.input_eq hvisit] at hnext
      omega

/-! ### Faults -/

theorem outcome_of_limit (h : f.limit = 0) : f.outcome ctx = .fault .tooDeep := by
  obtain ⟨limit, input, active, node, pos⟩ := f
  obtain rfl : limit = 0 := h
  exact matchNode_zero node

/-- The fault of a match that is started is the fault of the match that starts it. -/
theorem Starts.fault {φ : Fault} (h : f.Starts ctx g) (hg : g.outcome ctx = .fault φ) :
    f.outcome ctx = .fault φ := by
  cases h with
  | item hn =>
      rw [outcome, matchNode_sequence, Outcome.map_eq_fault, matchAll_eq_fault]
      exact ⟨_, hn, hg⟩
  | alternative hn =>
      rw [outcome, matchNode_choice, Outcome.mapError_eq_fault, matchFirst_eq_fault]
      exact ⟨_, hn, hg⟩
  | round hp =>
      rw [outcome, matchNode_many, Outcome.map_eq_fault, matchMany_eq_fault]
      exact ⟨_, hp, hg⟩
  | base =>
      rw [outcome, matchNode_exclusion, Outcome.andThen_eq_fault]
      exact .inl hg
  | forbidden hitem =>
      rw [outcome] at hg
      rw [outcome, matchNode_exclusion, Outcome.andThen_eq_fault]
      exact .inr ⟨_, _, hitem, by rw [hg]⟩
  | captured =>
      rw [outcome, matchNode_capture, Outcome.mapError_eq_fault, Outcome.map_eq_fault]
      exact hg
  | argument =>
      rw [outcome, matchNode_action, Outcome.andThen_eq_fault]
      exact .inl hg
  | target ht hactive =>
      rw [outcome, matchNode_entered ht hactive]
      exact hg

theorem Visits.fault {φ : Fault} (h : f.Visits ctx g) (hg : g.outcome ctx = .fault φ) :
    f.outcome ctx = .fault φ := by
  induction h with
  | refl => exact hg
  | tail _ hstart ih => exact ih (hstart.fault hg)

end Frame

/-! ## What a node does by itself -/

/-- The faults that a node can have by itself. -/
def Fault.IsOwn : Fault → Prop
  | uncaught _ | tooDeep => False
  | _ => True

theorem Fault.IsLocal.isOwn {φ : Fault} (h : φ.IsLocal) : φ.IsOwn := by
  cases φ <;> first | exact trivial | exact h.elim

section Own

variable {input : Input} {pos : Int} {φ : Fault} {e : ParseError α}

theorem isOwn_of_failShowing {d : Except Fault Text} {reason : Text → Reason α}
    (hd : Described d) (h : failShowing pos d reason = .fault φ) : φ.IsOwn := by
  have hmeets : (failShowing pos d reason : Match α).Meets (fun _ _ => True) (fun _ => True)
      Fault.IsLocal := failShowing_meets hd
  rw [h] at hmeets
  exact hmeets.isOwn

theorem failShowing_failure {d : Except Fault Text} {reason : Text → Reason α}
    (h : failShowing pos d reason = .failure e) : ∃ t, e = .leaf (reason t) pos [] := by
  unfold failShowing at h
  cases d with
  | ok t => cases h; exact ⟨t, rfl⟩
  | error f => cases h

theorem matchCodePoint_failure {holds : CodePoint → Except Fault Bool} {d : Except Fault Text}
    (h : matchCodePoint input holds d pos = .failure e) :
    ∃ expected found, e = .leaf (.mismatch expected found) pos [] := by
  rw [matchCodePoint] at h
  split at h
  · obtain ⟨t, rfl⟩ := failShowing_failure h
    exact ⟨t, _, rfl⟩
  · cases hc : codePointAt input pos with
    | error f => rw [hc] at h; cases h
    | ok c =>
        rw [hc] at h
        simp only [] at h
        cases hb : holds c with
        | error f => rw [hb] at h; cases h
        | ok b =>
            cases b with
            | true => rw [hb] at h; cases h
            | false =>
                rw [hb] at h
                obtain ⟨t, rfl⟩ := failShowing_failure h
                exact ⟨t, _, rfl⟩

theorem matchLiteral_failure {t : Text} (h : matchLiteral input t pos = .failure e) :
    ∃ expected found, e = .leaf (.mismatch expected found) pos [] := by
  rw [matchLiteral] at h
  split at h
  · cases h
  · cases h; exact ⟨_, _, rfl⟩

variable [Named α]

theorem matchLooseLiteral_failure {isBound : Nat → Bool} {text : Value α}
    (h : matchLooseLiteral isBound input text pos = .failure e) :
    ∃ expected found, e = .leaf (.mismatch expected found) pos [] := by
  cases text with
  | text t => exact matchLiteral_failure h
  | tuple items =>
      rw [matchLooseLiteral] at h
      cases hb : holdsAny input pos items with
      | error f => rw [hb] at h; cases h
      | ok b =>
          cases b with
          | true => rw [hb] at h; cases h
          | false =>
              rw [hb] at h
              obtain ⟨t, rfl⟩ := failShowing_failure h
              exact ⟨t, _, rfl⟩
  | _ => simp [matchLooseLiteral] at h

variable {ctx : Context α} {limit : Nat} {active : Active} {node : Node α}

theorem isOwn_of_shownAs {id : Nat} {name : Value α} {fault : Text → Fault}
    (h : ctx.shownAs id name fault = .fault φ) (hfault : ∀ t, (fault t).IsOwn) : φ.IsOwn := by
  have hmeets : (ctx.shownAs id name fault).Meets (fun _ _ => True) (fun _ => True)
      Fault.IsOwn := shownAs_meets (fun ψ hψ => hψ.isLocal.isOwn) hfault
  rw [h] at hmeets
  exact hmeets

theorem shownAs_ne_failure {id : Nat} {name : Value α} {fault : Text → Fault} :
    ctx.shownAs id name fault ≠ .failure e := by
  unfold Context.shownAs
  split <;> simp

omit [Named α] in
theorem settle_failure {r : Raised} (h : settle pos r = .failure e) :
    ∃ kind t, e = .leaf (.transform kind t) pos [] ∧ r = .shown kind t ∧ r.IsPlain := by
  rcases settle_cases (α := α) pos r with ⟨kind, t, rfl, hplain⟩ | hends | ⟨r', _, hr'⟩
  · rw [settle_of_isPlain hplain] at h
    cases h
    exact ⟨kind, t, rfl, rfl, hplain⟩
  · rw [settle_of_endsStack hends] at h
    cases h
  · rw [hr'] at h
    cases h

/-- An action fails with an error of its own. -/
theorem finish_failure {act : α} {v : Value α} {stop : Int}
    (h : ctx.finish limit act v pos stop = .failure e) :
    ∃ kind t, e = .leaf (.transform kind t) pos [] := by
  have hsettle {r : Raised} (hr : settle pos r = .failure e) :
      ∃ kind t, e = .leaf (.transform kind t) pos [] := by
    obtain ⟨kind, t, he, _⟩ := settle_failure hr
    exact ⟨kind, t, he⟩
  unfold Context.finish at h
  cases hp : ctx.perform act v with
  | value w => rw [hp] at h; cases h
  | raised r => rw [hp] at h; exact hsettle h
  | parse inner text =>
      rw [hp] at h
      simp only [] at h
      cases hi : parseInside ctx limit inner text with
      | ok w => rw [hi] at h; cases h
      | error halt =>
          rw [hi] at h
          cases halt with
          | refused e t => exact hsettle h
          | fault f =>
              simp only [settleHalt] at h
              split at h
              · cases h
              · exact hsettle h

theorem isOwn_of_leaf (h : matchNode ctx (limit + 1) input active node pos = .fault φ)
    (hleaf : node.IsLeaf) : φ.IsOwn := by
  have hmeets := @matchLeaf_meets α input pos _ ctx limit active node hleaf
  rw [h] at hmeets
  exact hmeets.isOwn

theorem matchLeaf_failure (h : matchNode ctx (limit + 1) input active node pos = .failure e)
    (hleaf : node.IsLeaf) :
    ∃ expected found, e = .leaf (.mismatch expected found) pos [] := by
  cases node with
  | literal t => exact matchLiteral_failure h
  | range low high => exact matchCodePoint_failure h
  | looseRange low high => exact matchCodePoint_failure h
  | looseLiteral text => exact matchLooseLiteral_failure h
  | empty _ | bare | stray _ => cases h
  | sequence _ | choice _ | many _ | exclusion _ _ | capture _ _ | action _ _
  | placeholder _ _ => exact hleaf.elim

end Own

/-! ## Where an end comes from -/

namespace Frame

variable [Named α] {ctx : Context α} {f : Frame α}

/-- Where the fault of a match comes from. -/
inductive Blames (ctx : Context α) (f : Frame α) (φ : Fault) : Prop
  | limit : f.limit = 0 → φ = .tooDeep → Blames ctx f φ
  | started {g : Frame α} : f.Starts ctx g → g.outcome ctx = .fault φ → Blames ctx f φ
  | performed {limit act v stop} : f.Performs ctx limit act v stop →
    ctx.finish limit act v f.pos stop = .fault φ → Blames ctx f φ
  | own : φ.IsOwn → Blames ctx f φ

/-- The errors are those of the alternatives of a choice, one for each and in order. -/
def Exhausts (ctx : Context α) (f : Frame α) (es : List (ParseError α)) : Prop :=
  ∃ alternatives, f.node = .choice alternatives ∧
    List.Forall₂ (fun n e => ∃ g : Frame α, f.Starts ctx g ∧ g.node = n ∧ g.pos = f.pos ∧
      g.outcome ctx = .failure e) alternatives es

/-- The match comes up with the error itself. -/
inductive Creates (ctx : Context α) (f : Frame α) : ParseError α → Prop
  | mismatch {expected found} : f.node.IsLeaf →
    f.outcome ctx = .failure (.leaf (.mismatch expected found) f.pos []) →
    Creates ctx f (.leaf (.mismatch expected found) f.pos [])
  | excluded {forbidden} : Creates ctx f (.leaf (.excluded forbidden) f.pos [])
  | transform {limit act v stop kind message} : f.Performs ctx limit act v stop →
    ctx.finish limit act v f.pos stop = .failure (.leaf (.transform kind message) f.pos []) →
    Creates ctx f (.leaf (.transform kind message) f.pos [])
  | exhausted {es} : f.Exhausts ctx es → Creates ctx f (.exhausted es f.pos [])

/-- Where the error of a failed match comes from. -/
inductive Reports (ctx : Context α) (f : Frame α) : ParseError α → Prop
  | created {e} : f.Creates ctx e → Reports ctx f e
  | started {g : Frame α} {e} : f.Starts ctx g → g.outcome ctx = .failure e → Reports ctx f e
  | labelled {g : Frame α} {e label item} : f.node = .capture label item → f.Starts ctx g →
    g.outcome ctx = .failure e → Reports ctx f (e.addLabel label)

theorem Exhausts.started {e : ParseError α} {es : List (ParseError α)} (h : f.Exhausts ctx es)
    (he : e ∈ es) : ∃ g : Frame α, f.Starts ctx g ∧ g.outcome ctx = .failure e := by
  obtain ⟨alternatives, -, hes⟩ := h
  obtain ⟨hlength, hget⟩ := List.forall₂_iff_get.mp hes
  obtain ⟨i, rfl⟩ := List.mem_iff_get.mp he
  obtain ⟨g, hstart, -, -, hg⟩ := hget i (hlength.symm ▸ i.isLt) i.isLt
  exact ⟨g, hstart, hg⟩

theorem Creates.pos_eq {e : ParseError α} (h : f.Creates ctx e) : e.pos = f.pos := by
  cases h <;> rfl

theorem blames_of_fault {φ : Fault} (h : f.outcome ctx = .fault φ) : f.Blames ctx φ := by
  obtain ⟨limit, input, active, node, pos⟩ := f
  simp only [outcome] at h
  cases limit with
  | zero => cases h; exact .limit rfl rfl
  | succ limit =>
      cases node with
      | sequence items =>
          rw [matchNode_sequence, Outcome.map_eq_fault, matchAll_eq_fault] at h
          obtain ⟨⟨n, p⟩, hn, hfault⟩ := h
          exact .started (.item hn) hfault
      | choice alternatives =>
          rw [matchNode_choice, Outcome.mapError_eq_fault, matchFirst_eq_fault] at h
          obtain ⟨n, hn, hfault⟩ := h
          exact .started (.alternative hn) hfault
      | many item =>
          rw [matchNode_many, Outcome.map_eq_fault, matchMany_eq_fault] at h
          obtain ⟨p, hp, hfault⟩ := h
          exact .started (.round hp) hfault
      | exclusion item forbidden =>
          rw [matchNode_exclusion, Outcome.andThen_eq_fault] at h
          rcases h with h | ⟨v, stop, hitem, h⟩
          · exact .started .base h
          · cases hf : matchNode ctx limit input active forbidden pos with
            | failure e => rw [hf] at h; cases h
            | fault ψ => rw [hf] at h; cases h; exact .started (.forbidden hitem) hf
            | success w q =>
                rw [hf] at h
                exact .own (isOwn_of_failShowing (described_node _ forbidden _) h)
      | capture label item =>
          rw [matchNode_capture, Outcome.mapError_eq_fault, Outcome.map_eq_fault] at h
          exact .started .captured h
      | action item act =>
          rw [matchNode_action, Outcome.andThen_eq_fault] at h
          rcases h with h | ⟨v, stop, hitem, h⟩
          · exact .started .argument h
          · exact .performed (.intro hitem) h
      | placeholder id name =>
          cases ht : ctx.bindings.target? id with
          | none =>
              rw [matchNode_unbound ht] at h
              exact .own (isOwn_of_shownAs h fun _ => trivial)
          | some target =>
              by_cases hactive : (id, pos) ∈ active
              · rw [matchNode_reentered ht hactive] at h
                exact .own (isOwn_of_shownAs h fun _ => trivial)
              · rw [matchNode_entered ht hactive] at h
                exact .started (.target ht hactive) h
      | bare | literal _ | range _ _ | empty _ | stray _ | looseLiteral _ | looseRange _ _ =>
          exact .own (isOwn_of_leaf h trivial)

theorem reports_of_failure {e : ParseError α} (h : f.outcome ctx = .failure e) :
    f.Reports ctx e := by
  obtain ⟨limit, input, active, node, pos⟩ := f
  simp only [outcome] at h
  cases limit with
  | zero => cases h
  | succ limit =>
      cases node with
      | sequence items =>
          rw [matchNode_sequence, Outcome.map_eq_failure, matchAll_eq_failure] at h
          obtain ⟨⟨n, p⟩, hn, hfails⟩ := h
          exact .started (.item hn) hfails
      | choice alternatives =>
          rw [matchNode_choice, Outcome.mapError_eq_failure] at h
          obtain ⟨es, hes, rfl⟩ := h
          refine .created (.exhausted ⟨alternatives, rfl, ?_⟩)
          exact (matchFirst_failure hes).imp fun n e hn => ⟨_, .alternative hn.1, rfl, rfl, hn.2⟩
      | many item =>
          rw [matchNode_many, Outcome.map_eq_failure] at h
          exact absurd h matchMany_ne_failure
      | exclusion item forbidden =>
          rw [matchNode_exclusion, Outcome.andThen_eq_failure] at h
          rcases h with h | ⟨v, stop, hitem, h⟩
          · exact .started .base h
          · cases hf : matchNode ctx limit input active forbidden pos with
            | failure e => rw [hf] at h; cases h
            | fault ψ => rw [hf] at h; cases h
            | success w q =>
                rw [hf] at h
                obtain ⟨t, rfl⟩ := failShowing_failure h
                exact .created .excluded
      | capture label item =>
          rw [matchNode_capture, Outcome.mapError_eq_failure] at h
          obtain ⟨e, he, rfl⟩ := h
          rw [Outcome.map_eq_failure] at he
          exact .labelled rfl .captured he
      | action item act =>
          rw [matchNode_action, Outcome.andThen_eq_failure] at h
          rcases h with h | ⟨v, stop, hitem, h⟩
          · exact .started .argument h
          · obtain ⟨kind, t, rfl⟩ := finish_failure h
            exact .created (.transform (.intro hitem) h)
      | placeholder id name =>
          cases ht : ctx.bindings.target? id with
          | none =>
              rw [matchNode_unbound ht] at h
              exact absurd h shownAs_ne_failure
          | some target =>
              by_cases hactive : (id, pos) ∈ active
              · rw [matchNode_reentered ht hactive] at h
                exact absurd h shownAs_ne_failure
              · rw [matchNode_entered ht hactive] at h
                exact .started (.target ht hactive) h
      | bare | literal _ | range _ _ | empty _ | stray _ | looseLiteral _ | looseRange _ _ =>
          obtain ⟨expected, found, rfl⟩ := matchLeaf_failure h trivial
          exact .created (.mismatch trivial h)

end Frame

end Peg
