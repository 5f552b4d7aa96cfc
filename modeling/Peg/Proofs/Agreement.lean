import Peg.Proofs.Reading

/-!
# Matches agree with readings

On a regular grammar a match at a position and a reading of the text from there on come
to the same: the same value and the same rest, or no match, or no answer within the
levels. Only the check on left recursion sets them apart. Where a match reports that a
placeholder was entered again, the reading is stuck, at this number of levels and at any
other, and this is what makes the check exact.

The direction with an idea in it is that the check raises no false alarm. Suppose that
the reading of a target at a position has an answer, and take the least number of
levels that give one. A reading with so many levels cannot come to the same target at
the same position again, since that one would need fewer levels. So the match with so
many levels meets no placeholder that was entered since, and by `matchNode_extends` it
meets none with more levels either. This is `target_follows`.

`Follows` carries this through the composite nodes: the two agree, or the match reports
left recursion and the reading has an answer only if some active placeholder ended.
-/

namespace Peg

variable {α ε ε' β γ : Type}

/-- A match and a reading of the rest of `text` that came to the same. -/
def Agrees (text : Text) : Outcome ε β → Reading β → Prop
  | .success v stop, .matched w rest =>
    v = w ∧ ∃ q : Nat, q ≤ text.length ∧ stop = q ∧ rest = text.drop q
  | .failure _, .mismatch => True
  | .fault f, .stuck => f = .tooDeep
  | _, _ => False

namespace Agrees

variable {text rest : Text} {o : Outcome ε β} {r : Reading β} {v : β} {stop : Int}

theorem reading_of_success (h : Agrees text (.success v stop : Outcome ε β) r) :
    ∃ q : Nat, q ≤ text.length ∧ stop = q ∧ r = .matched v (text.drop q) := by
  cases r with
  | matched w rest =>
      obtain ⟨rfl, q, hq, hstop, rfl⟩ := h
      exact ⟨q, hq, hstop, rfl⟩
  | mismatch | stuck => exact h.elim

theorem reading_of_failure {e : ε} (h : Agrees text (.failure e) r) : r = .mismatch := by
  cases r with
  | mismatch => rfl
  | matched _ _ | stuck => exact h.elim

theorem reading_of_fault {f : Fault} (h : Agrees text (.fault f : Outcome ε β) r) :
    r = .stuck ∧ f = .tooDeep := by
  cases r with
  | stuck => exact ⟨rfl, h⟩
  | matched _ _ | mismatch => exact h.elim

theorem success_of_matched (h : Agrees text o (.matched v rest)) :
    ∃ q : Nat, q ≤ text.length ∧ o = .success v q ∧ rest = text.drop q := by
  cases o with
  | success w stop =>
      obtain ⟨rfl, q, hq, rfl, hrest⟩ := h
      exact ⟨q, hq, rfl, hrest⟩
  | failure _ | fault _ => exact h.elim

theorem failure_of_mismatch (h : Agrees text o .mismatch) : ∃ e, o = .failure e := by
  cases o with
  | failure e => exact ⟨e, rfl⟩
  | success _ _ | fault _ => exact h.elim

theorem fault_of_stuck (h : Agrees text o .stuck) : o = .fault .tooDeep := by
  cases o with
  | fault f => exact congrArg _ h
  | success _ _ | failure _ => exact h.elim

/-- A match that agrees with an answer is no fault. -/
theorem ne_fault (h : Agrees text o r) (hr : r ≠ .stuck) (f : Fault) : o ≠ .fault f := by
  rintro rfl
  exact hr h.reading_of_fault.1

end Agrees

/-- A match and a reading that agree, unless the match reports left recursion. Then the
reading has an answer only if `E` holds. -/
def Follows (text : Text) (E : Prop) (o : Outcome ε β) (r : Reading β) : Prop :=
  Agrees text o r ∨ (∃ t p, o = .fault (.leftRecursion t p)) ∧ (r ≠ .stuck → E)

namespace Follows

variable {text : Text} {E : Prop}

theorem imp {E' : Prop} {o : Outcome ε β} {r : Reading β} (h : Follows text E o r)
    (hE : r ≠ .stuck → E → E') : Follows text E' o r :=
  Or.imp id (fun ⟨ho, hr⟩ => ⟨ho, fun hne => hE hne (hr hne)⟩) h

/-- What comes next has to follow where both matched and where neither did. A fault and
a stuck reading are handed on. -/
theorem branch {o : Outcome ε β} {r : Reading β} {o' : Outcome ε' γ} {r' : Reading γ}
    (h : Follows text E o r)
    (hmatched : ∀ v (q : Nat), q ≤ text.length → o = .success v q →
      r = .matched v (text.drop q) → Follows text E o' r')
    (hmismatch : ∀ e, o = .failure e → r = .mismatch → Follows text E o' r')
    (hfault : ∀ f, o = .fault f → o' = .fault f) (hstuck : r = .stuck → r' = .stuck) :
    Follows text E o' r' := by
  rcases h with h | ⟨⟨t, p, rfl⟩, hr⟩
  · cases o with
    | success v stop =>
        obtain ⟨q, hq, rfl, hr⟩ := h.reading_of_success
        exact hmatched v q hq rfl hr
    | failure e => exact hmismatch e rfl h.reading_of_failure
    | fault f =>
        obtain ⟨hr, rfl⟩ := h.reading_of_fault
        rw [hfault _ rfl, hstuck hr]
        exact .inl rfl
  · exact .inr ⟨⟨t, p, hfault _ rfl⟩, fun hne => hr fun h => hne (hstuck h)⟩

theorem andThen {o : Outcome ε β} {r : Reading β} {next : β → Int → Outcome ε γ}
    {next' : β → Text → Reading γ} (h : Follows text E o r)
    (hnext : ∀ v (q : Nat), q ≤ text.length → r = .matched v (text.drop q) →
      Follows text E (next v q) (next' v (text.drop q))) :
    Follows text E (o.andThen next) (r.andThen next') := by
  refine h.branch (fun v q hq ho hr => ?_) (fun e ho hr => ?_) (fun f ho => by rw [ho]; rfl)
    (fun hr => by rw [hr]; rfl)
  · rw [ho, hr]
    exact hnext v q hq hr
  · rw [ho, hr]
    exact .inl trivial

theorem map {o : Outcome ε β} {r : Reading β} {f : β → γ} (h : Follows text E o r) :
    Follows text E (o.map f) (r.map f) := by
  refine h.branch (fun v q hq ho hr => ?_) (fun e ho hr => ?_) (fun f ho => by rw [ho]; rfl)
    (fun hr => by rw [hr]; rfl)
  · rw [ho, hr]
    exact .inl ⟨rfl, q, hq, rfl, rfl⟩
  · rw [ho, hr]
    exact .inl trivial

theorem mapError {o : Outcome ε β} {r : Reading β} {f : ε → ε'} (h : Follows text E o r) :
    Follows text E (o.mapError f) r := by
  refine h.branch (fun v q hq ho hr => ?_) (fun e ho hr => ?_) (fun f ho => by rw [ho]; rfl) id
  · rw [ho, hr]
    exact .inl ⟨rfl, q, hq, rfl, rfl⟩
  · rw [ho, hr]
    exact .inl trivial

end Follows

/-! ## The loops -/

section Loops

variable {text : Text} {E : Prop}

theorem matchAll_follows {step : Node α → Int → Match α}
    {step' : Node α → Text → Reading (Value α)} {items : List (Node α)}
    (hstep : ∀ n ∈ items, ∀ p : Nat, p ≤ text.length →
      Follows text E (step n p) (step' n (text.drop p))) {p : Nat} (hp : p ≤ text.length) :
    Follows text E (matchAll step items p) (readAll step' items (text.drop p)) := by
  induction items generalizing p with
  | nil => exact .inl ⟨rfl, p, hp, rfl, rfl⟩
  | cons n ns ih =>
      rw [matchAll, readAll]
      exact (hstep n (by simp) p hp).andThen fun v q hq _ =>
        (ih (fun m hm => hstep m (by simp [hm])) hq).map

theorem matchFirst_follows {step : Node α → Match α} {step' : Node α → Reading (Value α)}
    {alternatives : List (Node α)}
    (hstep : ∀ n ∈ alternatives, Follows text E (step n) (step' n)) :
    Follows text E (matchFirst step alternatives) (readFirst step' alternatives) := by
  induction alternatives with
  | nil => exact .inl trivial
  | cons n ns ih =>
      have hns := ih fun m hm => hstep m (by simp [hm])
      rw [matchFirst, readFirst]
      refine (hstep n (by simp)).branch (fun v q hq ho hr => ?_) (fun e ho hr => ?_)
        (fun f ho => by rw [ho]) (fun hr => by rw [hr])
      · rw [ho, hr]
        exact .inl ⟨rfl, q, hq, rfl, rfl⟩
      · rw [ho, hr]
        exact hns.mapError

theorem matchMany_follows {step : Int → Match α} {step' : Text → Reading (Value α)}
    (hstep : ∀ p : Nat, p ≤ text.length → Follows text E (step p) (step' (text.drop p)))
    (room : Nat) {p : Nat} (hp : p ≤ text.length) :
    Follows text E (matchMany step room p) (readMany step' room (text.drop p)) := by
  induction room generalizing p with
  | zero => exact .inl ⟨rfl, p, hp, rfl, rfl⟩
  | succ room ih =>
      rw [matchMany, readMany]
      refine (hstep p hp).branch (fun v q hq ho hr => ?_) (fun e ho hr => ?_)
        (fun f ho => by rw [ho]) (fun hr => by rw [hr])
      · rw [ho, hr]
        simp only []
        by_cases hqp : q = p
        · subst hqp
          rw [if_pos rfl, if_pos rfl]
          exact .inl ⟨rfl, q, hq, rfl, rfl⟩
        · have hlength : ¬ (text.drop q).length = (text.drop p).length := by
            simp only [List.length_drop]
            omega
          rw [if_neg (by omega), if_neg hlength]
          exact (ih hq).map
      · rw [ho, hr]
        exact .inl ⟨rfl, p, hp, rfl, rfl⟩

end Loops

/-! ## Leaves -/

section Leaves

variable {text : Text} {p : Nat}

theorem anchor_eq (hp : p ≤ text.length) : Text.anchor text.length (p : Int) = p := by
  have h : (Text.anchor text.length (p : Int) : Int) = p :=
    Text.anchor_of_mem (by omega) (by omega)
  omega

theorem holds_iff (hp : p ≤ text.length) (t : Text) :
    (Input.ofText text).holds t p = true ↔ t <+: text.drop p := by
  rw [Input.holds, Input.startsAt_ofText, Input.size_ofText, anchor_eq hp,
    Bool.and_eq_true, List.isPrefixOf_iff_prefix]
  simp [hp]

theorem matchLiteral_agrees (hp : p ≤ text.length) (t : Text) :
    Agrees text (matchLiteral (.ofText text) t p : Match α) (readLiteral t (text.drop p)) := by
  rw [matchLiteral, readLiteral]
  by_cases h : t <+: text.drop p
  · rw [if_pos ((holds_iff hp t).mpr h), if_pos h]
    have hle := h.length_le
    rw [List.length_drop] at hle
    exact ⟨rfl, p + t.length, by omega, by simp, by rw [List.drop_drop]⟩
  · rw [if_neg fun hn => h ((holds_iff hp t).mp hn), if_neg h]
    exact trivial

theorem matchRange_agrees (hp : p ≤ text.length) {low high : Int}
    (hd : ∃ t, describeRange low high = .ok t) :
    Agrees text (matchRange (.ofText text) low high p : Match α)
      (readRange low high (text.drop p)) := by
  obtain ⟨t, ht⟩ := hd
  rw [matchRange, matchCodePoint, Input.size_ofText]
  rcases Nat.lt_or_ge p text.length with hlt | hge
  · have hat : (Input.ofText text).at? p = some text[p] := by
      rw [Input.at?_ofText, Text.at?, if_neg (by omega)]
      simp [hlt]
    have hlimit : ¬ (p : Int) < -Fault.indexLimit := by omega
    rw [if_neg (by omega), codePointAt, if_neg hlimit, hat, List.drop_eq_getElem_cons hlt,
      readRange]
    by_cases hin : low ≤ text[p].val ∧ text[p].val ≤ high
    · simp only [hin, and_self, decide_true, if_true]
      exact ⟨rfl, p + 1, by omega, by simp, rfl⟩
    · rw [if_neg hin]
      simp only [hin, decide_false, failShowing, ht]
      exact trivial
  · rw [if_pos (by omega), List.drop_of_length_le hge]
    simp only [failShowing, ht]
    exact trivial

end Leaves

/-! ## Whole matches -/

/-- Some active placeholder has a target whose reading has an answer within fewer
levels than `limit`. -/
def SomeEnded (ctx : Context α) (text : Text) (limit : Nat) (active : Active) : Prop :=
  ∃ (id q levels : Nat) (target : Node α), (id, (q : Int)) ∈ active ∧
    ctx.bindings.target? id = some target ∧ levels < limit ∧
    readNode ctx levels target (text.drop q) ≠ .stuck

theorem SomeEnded.mono {ctx : Context α} {text : Text} {limit limit' : Nat} {active : Active}
    (h : SomeEnded ctx text limit active) (hle : limit ≤ limit') :
    SomeEnded ctx text limit' active := by
  obtain ⟨id, q, levels, target, hmem, ht, hlevels, hne⟩ := h
  exact ⟨id, q, levels, target, hmem, ht, by omega, hne⟩

/-- The answer of an active placeholder is no answer of the placeholder entered last,
once the levels are so few that the latter has none. -/
theorem SomeEnded.of_cons {ctx : Context α} {text : Text} {limit id p : Nat}
    {target : Node α} {active : Active} (ht : ctx.bindings.target? id = some target)
    (h : SomeEnded ctx text limit ((id, (p : Int)) :: active))
    (hleast : ∀ levels < limit, readNode ctx levels target (text.drop p) = .stuck) :
    SomeEnded ctx text limit active := by
  obtain ⟨id', q, levels, target', hmem, ht', hlevels, hne⟩ := h
  rcases List.mem_cons.mp hmem with heq | hmem
  · obtain ⟨rfl, hq⟩ : id' = id ∧ (q : Int) = p := by simpa using heq
    obtain rfl : q = p := by omega
    obtain rfl : target' = target := by rw [ht] at ht'; exact (Option.some.inj ht').symm
    exact absurd (hleast levels hlevels) hne
  · exact ⟨id', q, levels, target', hmem, ht', hlevels, hne⟩

variable [Named α]

theorem finish_agrees {ctx : Context α} {limit : Nat} {text : Text} {act : α} {v : Value α}
    {pos : Int} {q : Nat} (hq : q ≤ text.length) (hplain : (ctx.perform act v).IsPlain) :
    Agrees text (ctx.finish limit act v pos q) ((ctx.perform act v).reading (text.drop q)) := by
  unfold Context.finish
  cases hp : ctx.perform act v with
  | value w => exact ⟨rfl, q, hq, rfl, rfl⟩
  | raised r =>
      rw [hp] at hplain
      cases r with
      | unshown kind cause => exact hplain.elim
      | shown kind t =>
          have hplain : (Raised.shown kind t).IsPlain := hplain
          rw [ActionResult.reading, if_pos hplain]
          simp only [settle_of_isPlain hplain]
          exact trivial
  | parse inner t => rw [hp] at hplain; exact hplain.elim

/-- The check raises no false alarm on a target that was entered just now, if at fewer
levels matches of it follow their readings as well. -/
theorem target_follows {ctx : Context α} {text : Text} {limit id p : Nat} {target : Node α}
    {active : Active} (ht : ctx.bindings.target? id = some target) (hquiet : ctx.IsQuiet target)
    (hbelow : ∀ levels ≤ limit,
      Follows text (SomeEnded ctx text levels ((id, (p : Int)) :: active))
        (matchNode ctx levels (.ofText text) ((id, (p : Int)) :: active) target p)
        (readNode ctx levels target (text.drop p))) :
    Follows text (SomeEnded ctx text limit active)
      (matchNode ctx limit (.ofText text) ((id, (p : Int)) :: active) target p)
      (readNode ctx limit target (text.drop p)) := by
  rcases hbelow limit (Nat.le_refl limit) with h | ⟨⟨t, q, ho⟩, -⟩
  · exact .inl h
  refine .inr ⟨⟨t, q, ho⟩, fun hne => ?_⟩
  -- The least number of levels at which the target has an answer.
  have hexists : ∃ levels, readNode ctx levels target (text.drop p) ≠ .stuck := ⟨limit, hne⟩
  classical
  obtain ⟨least, hfind, hleast⟩ : ∃ least, readNode ctx least target (text.drop p) ≠ .stuck ∧
      ∀ levels < least, readNode ctx levels target (text.drop p) = .stuck :=
    ⟨Nat.find hexists, Nat.find_spec hexists, fun _ hlt =>
      not_not.mp (Nat.find_min hexists hlt)⟩
  have hle : least ≤ limit := Nat.le_of_not_lt fun hlt => hne (hleast limit hlt)
  rcases hbelow least hle with h | ⟨-, hr⟩
  · -- The match had an answer there, so it has the same one at this level.
    have hsame := matchNode_extends ctx (.ofText text) hle _ target p hquiet
      (h.ne_fault hfind _)
    exact absurd (hsame.symm.trans ho) (h.ne_fault hfind _)
  · exact (SomeEnded.of_cons ht (hr hfind) hleast).mono hle

theorem matchNode_follows (ctx : Context α) (text : Text) (limit : Nat) :
    ∀ (active : Active) (node : Node α) (p : Nat), p ≤ text.length → ctx.IsRegular node →
      Follows text (SomeEnded ctx text limit active)
        (matchNode ctx limit (.ofText text) active node p)
        (readNode ctx limit node (text.drop p)) := by
  induction limit using Nat.strong_induction_on with
  | _ limit ih =>
  intro active node p hp hregular
  cases limit with
  | zero => rw [matchNode_zero, readNode_zero]; exact .inl rfl
  | succ limit =>
    have hpart : ∀ n ∈ node.parts, ∀ q : Nat, q ≤ text.length →
        Follows text (SomeEnded ctx text (limit + 1) active)
          (matchNode ctx limit (.ofText text) active n q)
          (readNode ctx limit n (text.drop q)) := fun n hn q hq =>
      (ih limit (by omega) active n q hq (hregular.part hn)).imp
        fun _ h => h.mono (by omega)
    cases node with
    | literal t =>
        rw [matchNode_literal, readNode_literal]
        exact .inl (matchLiteral_agrees hp t)
    | range low high =>
        rw [matchNode_range, readNode_range]
        exact .inl (matchRange_agrees hp (describeRange_ok (hregular.built _ .refl)))
    | sequence items =>
        rw [matchNode_sequence, readNode_sequence]
        exact (matchAll_follows hpart hp).map
    | choice alternatives =>
        rw [matchNode_choice, readNode_choice]
        exact (matchFirst_follows fun n hn => hpart n hn p hp).mapError
    | many item =>
        have hroom : (Input.ofText text).room p = (text.drop p).length + 2 := by
          simp only [Input.room, Input.size_ofText, List.length_drop]
          omega
        rw [matchNode_many, readNode_many, hroom]
        exact (matchMany_follows (hpart item (by simp [Node.parts])) _ hp).map
    | exclusion item forbidden =>
        obtain ⟨t, ht⟩ := (hregular.part (n := forbidden) (by simp [Node.parts])).describe
          ctx.bindings.isBound Node.usualDepth
        rw [matchNode_exclusion, readNode_exclusion]
        refine (hpart item (by simp [Node.parts]) p hp).andThen fun v q hq _ => ?_
        refine (hpart forbidden (by simp [Node.parts]) p hp).branch (fun w r _ ho hs => ?_)
          (fun e ho hs => ?_) (fun f ho => by rw [ho]) (fun hs => by rw [hs])
        · rw [ho, hs]
          simp only [failShowing, ht]
          exact .inl trivial
        · rw [ho, hs]
          exact .inl ⟨rfl, q, hq, rfl, rfl⟩
    | capture label item =>
        rw [matchNode_capture, readNode_capture]
        exact (hpart item (by simp [Node.parts]) p hp).map.mapError
    | action item act =>
        rw [matchNode_action, readNode_action]
        exact (hpart item (by simp [Node.parts]) p hp).andThen fun v q hq _ =>
          .inl (finish_agrees hq (hregular.plain item act .refl v))
    | empty shared =>
        rw [matchNode_empty, readNode_empty]
        exact .inl ⟨rfl, p, hp, rfl, rfl⟩
    | bare | stray _ | looseLiteral _ | looseRange _ _ => exact (hregular.built _ .refl).elim
    | placeholder id name =>
        obtain ⟨target, ht⟩ := hregular.exists_target
        have htarget := hregular.target ht
        have hread : readNode ctx (limit + 1) (.placeholder id name) (text.drop p) =
            readNode ctx limit target (text.drop p) := by rw [readNode_placeholder, ht]
        rw [hread]
        by_cases hactive : (id, (p : Int)) ∈ active
        · obtain ⟨t, hshown⟩ := hregular.describe ctx.bindings.isBound 0
          rw [matchNode_reentered ht hactive, Context.shownAs, hshown]
          exact .inr ⟨⟨t, p, rfl⟩, fun hne =>
            ⟨id, p, limit, target, hactive, ht, by omega, hne⟩⟩
        · rw [matchNode_entered ht hactive]
          exact (target_follows ht htarget.isQuiet fun levels hle =>
            ih levels (by omega) _ target p hp htarget).imp fun _ h => h.mono (by omega)

/-- At the top no placeholder is active, so where a match reports left recursion the
reading is stuck. -/
theorem matchNode_agrees {ctx : Context α} {node : Node α} {text : Text} {pos : Nat}
    (limit : Nat) (hnode : ctx.IsRegular node) (hpos : pos ≤ text.length) :
    Agrees text (matchNode ctx limit (.ofText text) [] node pos)
        (readNode ctx limit node (text.drop pos)) ∨
      (∃ t p, matchNode ctx limit (.ofText text) [] node pos = .fault (.leftRecursion t p)) ∧
        readNode ctx limit node (text.drop pos) = .stuck := by
  rcases matchNode_follows ctx text limit [] node pos hpos hnode with h | ⟨hfault, hr⟩
  · exact .inl h
  · refine .inr ⟨hfault, ?_⟩
    by_contra hne
    obtain ⟨_, _, _, _, hmem, _⟩ := hr hne
    cases hmem

end Peg
