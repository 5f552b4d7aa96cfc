import Peg.Builder
import Peg.Proofs.Ending

/-!
# Repetition

A repetition matches its item as often in a row as the item consumes something, and stops
where the item fails or rests. That is one row of matches and no other: what a row has
matched is matched by a sequence of as many items, and conversely.

The loop has a bound of its own, the room of the text, and stops there without trying the
item. The bound is never met, because a round that is not the last moves on: what is left of
the text is less than the room that is left, and that is what the induction carries
(`endsMany_success_iff`). It takes an item that keeps within the text.

Nothing is gained by repeating an item that may be missing, or a repetition. A round of the
first that finds nothing is a round that rests. The second repetition has one round, with
all that the first one matches, and then rests.
-/

namespace Peg

variable {α : Type} [Named α]

/-! ## Where matches stop -/

section Stops

variable {ctx : Context α} {input : Input} {active : Active} {node : Node α} {pos stop : Int}
  {v : Value α}

theorem Context.Ends.le_stop (h : ctx.Ends input active node pos (.success v stop)) :
    pos ≤ stop := by
  obtain ⟨limit, -, heq⟩ := h
  have hstop := matchNode_le_stop ctx input limit active node pos
  rwa [heq] at hstop

theorem Context.Ends.stop_le (hinside : ctx.bindings.KeepsInside node)
    (h : ctx.Ends input active node pos (.success v stop)) : stop ≤ max pos input.size := by
  obtain ⟨limit, -, heq⟩ := h
  have hstop := matchNode_stop ctx input limit active node pos hinside
  rw [heq] at hstop
  exact hstop.2

end Stops

/-! ## Rows -/

/-- Matches of an item in a row, each of which consumes something. -/
inductive Row (ctx : Context α) (input : Input) (active : Active) (item : Node α) :
    Int → List (Value α) → Int → Prop
  | nil {pos} : Row ctx input active item pos [] pos
  | cons {pos next stop v vs} : ctx.Ends input active item pos (.success v next) → pos < next →
    Row ctx input active item next vs stop → Row ctx input active item pos (v :: vs) stop

/-- The item fails, or matches without consuming anything. -/
def Rests (ctx : Context α) (input : Input) (active : Active) (item : Node α) (pos : Int) :
    Prop :=
  (∃ e, ctx.Ends input active item pos (.failure e)) ∨
    ∃ v, ctx.Ends input active item pos (.success v pos)

section Rows

variable {ctx : Context α} {input : Input} {active : Active} {item : Node α} {pos stop : Int}
  {vs : List (Value α)} {room : Nat}

/-- One round of a loop: it rests, it moves on, or it has a fault. -/
theorem endsMany_succ {o : Outcome (ParseError α) (List (Value α))} :
    EndsMany ctx input active item (room + 1) pos o ↔
      (Rests ctx input active item pos ∧ .success [] pos = o) ∨
      (∃ v next rest, ctx.Ends input active item pos (.success v next) ∧ pos < next ∧
        EndsMany ctx input active item room next rest ∧ rest.map (v :: ·) = o) ∨
      ∃ f, ctx.Ends input active item pos (.fault f) ∧ .fault f = o := by
  constructor
  · rintro ⟨first, hfirst, hnext⟩
    cases first with
    | fault f => exact .inr (.inr ⟨f, hfirst, hnext⟩)
    | failure e => exact .inl ⟨.inl ⟨e, hfirst⟩, hnext⟩
    | success v next =>
        simp only [] at hnext
        by_cases hrests : next = pos
        · subst hrests
          rw [if_pos rfl] at hnext
          exact .inl ⟨.inr ⟨v, hfirst⟩, hnext⟩
        · rw [if_neg hrests] at hnext
          obtain ⟨rest, hrest, hmap⟩ := hnext
          have hle := hfirst.le_stop
          exact .inr (.inl ⟨v, next, rest, hfirst, by omega, hrest, hmap⟩)
  · rintro (⟨⟨e, he⟩ | ⟨v, hv⟩, heq⟩ | ⟨v, next, rest, hfirst, hlt, hrest, hmap⟩ | ⟨f, hf, heq⟩)
    · exact ⟨_, he, heq⟩
    · exact ⟨_, hv, by simpa using heq⟩
    · exact ⟨_, hfirst, by simp only [if_neg (Int.ne_of_gt hlt)]; exact ⟨rest, hrest, hmap⟩⟩
    · exact ⟨_, hf, heq⟩

/-- The rounds of a loop are a row that ends where the item rests. -/
theorem endsMany_success_iff (hinside : ctx.bindings.KeepsInside item)
    (hroom : (input.size - pos).toNat < room) :
    EndsMany ctx input active item room pos (.success vs stop) ↔
      Row ctx input active item pos vs stop ∧ Rests ctx input active item stop := by
  induction room generalizing pos vs with
  | zero => exact absurd hroom (Nat.not_lt_zero _)
  | succ room ih =>
      have hless : ∀ {v next}, ctx.Ends input active item pos (.success v next) → pos < next →
          (input.size - next).toNat < room := fun h hlt => by
        have hle := h.stop_le hinside
        omega
      rw [endsMany_succ]
      constructor
      · rintro (⟨hrests, heq⟩ | ⟨v, next, rest, hfirst, hlt, hrest, hmap⟩ | ⟨f, -, heq⟩)
        · cases heq
          exact ⟨.nil, hrests⟩
        · cases rest with
          | failure _ | fault _ => cases hmap
          | success vs stop =>
              cases hmap
              obtain ⟨hrow, hlast⟩ := (ih (hless hfirst hlt)).mp hrest
              exact ⟨.cons hfirst hlt hrow, hlast⟩
        · cases heq
      · rintro ⟨hrow, hlast⟩
        cases hrow with
        | nil => exact .inl ⟨hlast, rfl⟩
        | cons hfirst hlt hrow =>
            have hrest := (ih (hless hfirst hlt)).mpr ⟨hrow, hlast⟩
            exact .inr (.inl ⟨_, _, _, hfirst, hlt, hrest, rfl⟩)

theorem room_covers : (input.size - pos).toNat < input.room pos := by
  rw [Input.room]
  omega

/-- A repetition matches the row that ends where its item rests. -/
theorem ends_many_success_iff (hinside : ctx.bindings.KeepsInside item) :
    ctx.Ends input active (.many item) pos (.success (.list vs) stop) ↔
      Row ctx input active item pos vs stop ∧ Rests ctx input active item stop := by
  rw [ends_many, ← endsMany_success_iff hinside room_covers]
  constructor
  · rintro ⟨r, hr, heq⟩
    cases r <;> cases heq
    exact hr
  · exact fun h => ⟨_, h, rfl⟩

/-- A repetition fails nowhere. -/
theorem matchNode_many_cases (ctx : Context α) (limit : Nat) (input : Input) (active : Active)
    (item : Node α) (pos : Int) :
    (∃ vs stop, matchNode ctx limit input active (.many item) pos = .success (.list vs) stop) ∨
      ∃ f, matchNode ctx limit input active (.many item) pos = .fault f := by
  cases limit with
  | zero => exact .inr ⟨_, rfl⟩
  | succ limit =>
      rw [matchNode_many]
      cases hr : matchMany (matchNode ctx limit input active item) (input.room pos) pos with
      | success vs stop => exact .inl ⟨vs, stop, rfl⟩
      | failure e => exact absurd hr matchMany_ne_failure
      | fault f => exact .inr ⟨f, rfl⟩

theorem ends_many_cases {o : Match α} (h : ctx.Ends input active (.many item) pos o) :
    (∃ vs stop, o = .success (.list vs) stop) ∨ ∃ f, o = .fault f := by
  obtain ⟨limit, -, rfl⟩ := h
  exact matchNode_many_cases ctx limit input active item pos

/-- Where the item has no fault, a loop ends. -/
theorem exists_endsMany (hinside : ctx.bindings.KeepsInside item)
    (hitem : ∀ p, pos ≤ p → p ≤ max pos input.size →
      ∃ o, ctx.Ends input active item p o ∧ ∀ f, o ≠ .fault f) (room : Nat) :
    ∃ vs stop, EndsMany ctx input active item room pos (.success vs stop) := by
  induction room generalizing pos with
  | zero => exact ⟨[], pos, rfl⟩
  | succ room ih =>
      obtain ⟨o, ho, hne⟩ := hitem pos (Int.le_refl _) (by omega)
      cases o with
      | fault f => exact absurd rfl (hne f)
      | failure e => exact ⟨[], pos, endsMany_succ.mpr (.inl ⟨.inl ⟨e, ho⟩, rfl⟩)⟩
      | success v next =>
          rcases Int.lt_or_eq_of_le ho.le_stop with hlt | rfl
          · have hle := ho.stop_le hinside
            have hitem' : ∀ p, next ≤ p → p ≤ max next input.size →
                ∃ o, ctx.Ends input active item p o ∧ ∀ f, o ≠ .fault f :=
              fun p hp hmax => hitem p (by omega) (by omega)
            obtain ⟨vs, stop, hrest⟩ := ih hitem'
            exact ⟨v :: vs, stop, endsMany_succ.mpr (.inr (.inl ⟨_, _, _, ho, hlt, hrest, rfl⟩))⟩
          · exact ⟨[], pos, endsMany_succ.mpr (.inl ⟨.inr ⟨v, ho⟩, rfl⟩)⟩

theorem exists_ends_many (hinside : ctx.bindings.KeepsInside item)
    (hitem : ∀ p, pos ≤ p → p ≤ max pos input.size →
      ∃ o, ctx.Ends input active item p o ∧ ∀ f, o ≠ .fault f) :
    ∃ vs stop, ctx.Ends input active (.many item) pos (.success (.list vs) stop) := by
  obtain ⟨vs, stop, h⟩ := exists_endsMany hinside hitem (input.room pos)
  exact ⟨vs, stop, ends_many.mpr ⟨_, h, rfl⟩⟩

/-- After a repetition its item consumes nothing. -/
theorem ends_many_then_item (hinside : ctx.bindings.KeepsInside item) {w : Value α}
    (h : ctx.Ends input active (.sequence [.many item, item]) pos (.success w stop)) :
    ∃ vs v, w = .tuple [.list vs, v] ∧
      ctx.Ends input active (.many item) pos (.success (.list vs) stop) ∧
      ctx.Ends input active item stop (.success v stop) := by
  obtain ⟨first, hmany, hnext⟩ := ends_pair.mp h
  rcases ends_many_cases hmany with ⟨vs, mid, rfl⟩ | ⟨f, rfl⟩
  · obtain ⟨second, hitem, heq⟩ := hnext
    cases second <;> cases heq
    obtain ⟨-, hrests⟩ := (ends_many_success_iff hinside).mp hmany
    rcases hrests with ⟨e, he⟩ | ⟨v', hv'⟩
    · cases he.unique hitem
    · cases hv'.unique hitem
      exact ⟨vs, _, rfl, hmany, hitem⟩
  · cases hnext

theorem Row.le_stop (h : Row ctx input active item pos vs stop) : pos ≤ stop := by
  induction h with
  | nil => exact Int.le_refl _
  | cons _ hlt _ ih => omega

/-- A row is what a sequence of as many items matches. -/
theorem Row.endsAll (h : Row ctx input active item pos vs stop) :
    EndsAll ctx input active (List.replicate vs.length item) pos (.success vs stop) := by
  induction h with
  | nil => rfl
  | cons hfirst _ _ ih => exact ⟨_, hfirst, _, ih, rfl⟩

end Rows

/-! ## Items that may be missing -/

section Optional

variable {ctx : Context α} {input : Input} {active : Active} {item : Node α} {pos stop : Int}

theorem ends_optional {o : Match α} : ctx.Ends input active item.optional pos o ↔
    ∃ first, ctx.Ends input active item pos first ∧
      match first with
      | .success v stop => .success v stop = o
      | .failure _ => .success .null pos = o
      | .fault f => .fault f = o := by
  rw [Node.optional, ends_either]
  refine exists_congr fun first => and_congr_right fun _ => ?_
  cases first with
  | success _ _ | fault _ => exact Iff.rfl
  | failure e =>
      constructor
      · rintro ⟨_, hempty, rfl⟩
        rw [← ends_empty.mp hempty]
        rfl
      · rintro rfl
        exact ⟨_, ends_empty.mpr rfl, rfl⟩

theorem ends_optional_fault_iff {f : Fault} :
    ctx.Ends input active item.optional pos (.fault f) ↔
      ctx.Ends input active item pos (.fault f) := by
  rw [ends_optional]
  constructor
  · rintro ⟨first, hfirst, hnext⟩
    cases first <;> cases hnext
    exact hfirst
  · exact fun h => ⟨_, h, rfl⟩

/-- Where an item consumes something, it makes no difference that it may be missing. -/
theorem ends_optional_success_iff {v : Value α} (hlt : pos < stop) :
    ctx.Ends input active item.optional pos (.success v stop) ↔
      ctx.Ends input active item pos (.success v stop) := by
  rw [ends_optional]
  constructor
  · rintro ⟨first, hfirst, hnext⟩
    cases first with
    | success _ _ => cases hnext; exact hfirst
    | failure e => cases hnext; exact absurd hlt (Int.lt_irrefl _)
    | fault f => cases hnext
  · exact fun h => ⟨_, h, rfl⟩

/-- Where an item fails, it rests if it may be missing. -/
theorem rests_optional :
    Rests ctx input active item.optional pos ↔ Rests ctx input active item pos := by
  constructor
  · rintro (⟨e, he⟩ | ⟨v, hv⟩)
    · obtain ⟨first, -, hnext⟩ := ends_optional.mp he
      cases first <;> cases hnext
    · obtain ⟨first, hfirst, hnext⟩ := ends_optional.mp hv
      cases first with
      | success w stop => cases hnext; exact .inr ⟨v, hfirst⟩
      | failure e => exact .inl ⟨e, hfirst⟩
      | fault f => cases hnext
  · rintro (⟨e, he⟩ | ⟨v, hv⟩)
    · exact .inr ⟨_, ends_optional.mpr ⟨_, he, rfl⟩⟩
    · exact .inr ⟨v, ends_optional.mpr ⟨_, hv, rfl⟩⟩

theorem endsMany_optional {room : Nat} {o : Outcome (ParseError α) (List (Value α))} :
    EndsMany ctx input active item.optional room pos o ↔
      EndsMany ctx input active item room pos o := by
  induction room generalizing pos o with
  | zero => exact Iff.rfl
  | succ room ih =>
      rw [endsMany_succ, endsMany_succ, rests_optional]
      simp only [ih, ends_optional_fault_iff]
      refine or_congr_right (or_congr_left (exists_congr fun v => exists_congr fun next =>
        exists_congr fun rest => ?_))
      rw [and_left_comm, and_left_comm (b := pos < next)]
      exact and_congr_right fun hlt => and_congr_left fun _ => ends_optional_success_iff hlt

theorem ends_many_optional {o : Match α} : ctx.Ends input active (.many item.optional) pos o ↔
    ctx.Ends input active (.many item) pos o := by
  simp only [ends_many, endsMany_optional]

end Optional

/-! ## Repetitions of repetitions -/

/-- A list with the value as its member, unless there is nothing in the value. -/
def Value.inList : Value α → Value α
  | .list [] => .list []
  | v => .list [v]

section Nested

variable {ctx : Context α} {input : Input} {active : Active} {item : Node α} {pos : Int}

theorem rests_many {stop : Int} (hinside : ctx.bindings.KeepsInside item)
    (h : Rests ctx input active item stop) : Rests ctx input active (.many item) stop :=
  .inr ⟨_, (ends_many_success_iff hinside).mpr ⟨.nil, h⟩⟩

theorem ends_many_many_of_ends (hinside : ctx.bindings.KeepsInside item) {o : Match α}
    (h : ctx.Ends input active (.many item) pos o) :
    ctx.Ends input active (.many (.many item)) pos (o.map Value.inList) := by
  obtain ⟨room, hroom⟩ : ∃ room, input.room pos = room + 2 := ⟨_, rfl⟩
  rw [ends_many, hroom]
  rcases ends_many_cases h with ⟨vs, stop, rfl⟩ | ⟨f, rfl⟩
  · obtain ⟨hrow, hrests⟩ := (ends_many_success_iff hinside).mp h
    cases hrow with
    | nil =>
        exact ⟨_, endsMany_succ.mpr (.inl ⟨rests_many hinside hrests, rfl⟩), rfl⟩
    | cons _ hlt hrest =>
        -- The second round rests where the first one stopped.
        have hsecond : EndsMany ctx input active (.many item) (room + 1) stop (.success [] stop) :=
          endsMany_succ.mpr (.inl ⟨rests_many hinside hrests, rfl⟩)
        have hle := hrest.le_stop
        exact ⟨_, endsMany_succ.mpr (.inr (.inl ⟨_, _, _, h, by omega, hsecond, rfl⟩)), rfl⟩
  · exact ⟨_, endsMany_succ.mpr (.inr (.inr ⟨f, h, rfl⟩)), rfl⟩

/-- Repeating a repetition puts what it matched into a list. -/
theorem ends_many_many (hinside : ctx.bindings.KeepsInside item) {o : Match α} :
    ctx.Ends input active (.many (.many item)) pos o ↔
      ∃ inner, ctx.Ends input active (.many item) pos inner ∧ inner.map Value.inList = o := by
  constructor
  · intro h
    -- The first round is a repetition, so it comes to something.
    obtain ⟨r, ⟨inner, hinner, -⟩, -⟩ := ends_many.mp h
    exact ⟨inner, hinner, (ends_many_many_of_ends hinside hinner).unique h⟩
  · rintro ⟨inner, hinner, rfl⟩
    exact ends_many_many_of_ends hinside hinner

end Nested

/-! ## Sequences of sequences -/

section Sequences

variable {ctx : Context α} {input : Input} {active : Active} {items before after : List (Node α)}
  {pos stop : Int} {ws : List (Value α)}

theorem ends_sequence_success_iff {w : Value α} :
    ctx.Ends input active (.sequence items) pos (.success w stop) ↔
      ∃ vs, w = .tuple vs ∧ EndsAll ctx input active items pos (.success vs stop) := by
  rw [ends_sequence]
  constructor
  · rintro ⟨r, hr, heq⟩
    cases r <;> cases heq
    exact ⟨_, rfl, hr⟩
  · rintro ⟨vs, rfl, h⟩
    exact ⟨_, h, rfl⟩

theorem endsAll_cons_success_iff {n : Node α} :
    EndsAll ctx input active (n :: items) pos (.success ws stop) ↔
      ∃ v next vs, ctx.Ends input active n pos (.success v next) ∧
        EndsAll ctx input active items next (.success vs stop) ∧ ws = v :: vs := by
  constructor
  · rintro ⟨first, hfirst, hnext⟩
    cases first with
    | failure _ | fault _ => cases hnext
    | success v next =>
        obtain ⟨rest, hrest, hmap⟩ := hnext
        cases rest <;> cases hmap
        exact ⟨v, next, _, hfirst, hrest, rfl⟩
  · rintro ⟨v, next, vs, hfirst, hrest, rfl⟩
    exact ⟨_, hfirst, _, hrest, rfl⟩

theorem endsAll_append_success_iff :
    EndsAll ctx input active (before ++ after) pos (.success ws stop) ↔
      ∃ us vs mid, EndsAll ctx input active before pos (.success us mid) ∧
        EndsAll ctx input active after mid (.success vs stop) ∧ ws = us ++ vs := by
  induction before generalizing pos ws with
  | nil =>
      constructor
      · exact fun h => ⟨[], ws, pos, rfl, h, rfl⟩
      · rintro ⟨us, vs, mid, hbefore, hafter, rfl⟩
        cases hbefore
        exact hafter
  | cons n ns ih =>
      rw [List.cons_append]
      simp only [endsAll_cons_success_iff, ih]
      constructor
      · rintro ⟨v, next, _, hfirst, ⟨us, vs, mid, hbefore, hafter, rfl⟩, rfl⟩
        exact ⟨_, vs, mid, ⟨v, next, us, hfirst, hbefore, rfl⟩, hafter, rfl⟩
      · rintro ⟨_, vs, mid, ⟨v, next, us, hfirst, hbefore, rfl⟩, hafter, rfl⟩
        exact ⟨v, next, _, hfirst, ⟨us, vs, mid, hbefore, hafter, rfl⟩, rfl⟩

theorem EndsAll.length_eq (h : EndsAll ctx input active items pos (.success ws stop)) :
    ws.length = items.length := by
  induction items generalizing pos ws with
  | nil => cases h; rfl
  | cons n ns ih =>
      obtain ⟨v, next, vs, -, hrest, rfl⟩ := endsAll_cons_success_iff.mp h
      rw [List.length_cons, List.length_cons, ih hrest]

/-- Two sequences in a sequence match what their items match, one after the other. -/
theorem ends_sequences_success_iff {w : Value α} :
    ctx.Ends input active (.sequence [.sequence before, .sequence after]) pos (.success w stop) ↔
      ∃ us vs mid, EndsAll ctx input active before pos (.success us mid) ∧
        EndsAll ctx input active after mid (.success vs stop) ∧
        w = .tuple [.tuple us, .tuple vs] := by
  rw [ends_sequence_success_iff]
  simp only [endsAll_cons_success_iff, ends_sequence_success_iff]
  constructor
  · rintro ⟨_, rfl, _, mid, _, ⟨us, rfl, hbefore⟩, ⟨_, last, _, ⟨vs, rfl, hafter⟩, hnil, rfl⟩, rfl⟩
    cases hnil
    exact ⟨us, vs, mid, hbefore, hafter, rfl⟩
  · rintro ⟨us, vs, mid, hbefore, hafter, rfl⟩
    exact ⟨_, rfl, _, mid, _, ⟨us, rfl, hbefore⟩, ⟨_, stop, [], ⟨vs, rfl, hafter⟩, rfl, rfl⟩, rfl⟩

variable {item : Node α} {k l : Nat} {w : Value α}

/-- To match an item some times and then some times more is to match it as often at once. -/
theorem ends_exactly_add :
    ctx.Ends input active (item.exactly (k + l)) pos (.success w stop) ↔
      ∃ us vs, us.length = k ∧ vs.length = l ∧ w = .tuple (us ++ vs) ∧
        ctx.Ends input active (.sequence [item.exactly k, item.exactly l]) pos
          (.success (.tuple [.tuple us, .tuple vs]) stop) := by
  rw [Node.exactly, ends_sequence_success_iff, List.replicate_add]
  constructor
  · rintro ⟨_, rfl, hall⟩
    obtain ⟨us, vs, mid, hus, hvs, rfl⟩ := endsAll_append_success_iff.mp hall
    exact ⟨us, vs, by simpa using hus.length_eq, by simpa using hvs.length_eq, rfl,
      ends_sequences_success_iff.mpr ⟨us, vs, mid, hus, hvs, rfl⟩⟩
  · rintro ⟨us, vs, -, -, rfl, h⟩
    obtain ⟨_, _, mid, hus, hvs, heq⟩ := ends_sequences_success_iff.mp h
    cases heq
    exact ⟨_, rfl, endsAll_append_success_iff.mpr ⟨us, vs, mid, hus, hvs, rfl⟩⟩

theorem ends_exactly_exactly
    (h : ctx.Ends input active (.sequence [item.exactly k, item.exactly l]) pos
      (.success w stop)) :
    ∃ us vs, us.length = k ∧ vs.length = l ∧ w = .tuple [.tuple us, .tuple vs] := by
  obtain ⟨us, vs, mid, hus, hvs, rfl⟩ := ends_sequences_success_iff.mp h
  exact ⟨us, vs, by simpa using hus.length_eq, by simpa using hvs.length_eq, rfl⟩

end Sequences

/-! ## The theorem -/

/-- The attempt with its value in a list. -/
def Attempt.inList : Attempt α → Attempt α
  | .matched v consumed => .matched v.inList consumed
  | .failed e => .failed e

omit [Named α] in
theorem Outcome.toAttempt_inList (o : Match α) (text : Text) (pos : Int) :
    (o.map Value.inList).toAttempt text pos = (o.toAttempt text pos).map Attempt.inList := by
  cases o with
  | success v stop => rfl
  | failure e => rfl
  | fault f => cases f <;> rfl

/-- What attempts at the repetition of an item come to at a position. -/
structure RepeatsInRow (ctx : Context α) (item : Node α) (text : Text) (pos : Int) : Prop where
  /-- An attempt that raises no error matches a list, under every limit. -/
  error_or_matched : ∀ limit, (∃ h, attempt ctx limit (.many item) text pos = .error h) ∨
    ∃ vs n, attempt ctx limit (.many item) text pos = .ok (.matched (.list vs) n)
  /-- No error is raised if none is raised by the item. -/
  exists_matched : (∀ p, pos ≤ p → p ≤ max pos text.length →
      ∃ a, ctx.Answers item text p (.ok a)) →
    ∃ vs n, ctx.Answers (.many item) text pos (.ok (.matched (.list vs) n))
  /-- What is matched is a row of matches that the item matches as often in a sequence, and
  where it ends the item rests. -/
  matched_iff : ∀ vs n, ctx.Answers (.many item) text pos (.ok (.matched (.list vs) n)) ↔
    ctx.Answers (item.exactly vs.length) text pos (.ok (.matched (.tuple vs) n)) ∧
      Row ctx (.ofText text) [] item pos vs (pos + n) ∧
      Rests ctx (.ofText text) [] item (pos + n)
  /-- After a repetition the item consumes nothing. -/
  rests_after : ∀ w n, ctx.Answers (.sequence [.many item, item]) text pos (.ok (.matched w n)) →
    ∃ vs v, w = .tuple [.list vs, v] ∧
      ctx.Answers (.many item) text pos (.ok (.matched (.list vs) n)) ∧
      ctx.Answers item text (pos + n) (.ok (.matched v 0))
  many_optional : ∀ r, ctx.Answers (.many item.optional) text pos r ↔
    ctx.Answers (.many item) text pos r
  many_many : ∀ r, ctx.Answers (.many (.many item)) text pos r ↔
    ∃ inner, ctx.Answers (.many item) text pos inner ∧ inner.map Attempt.inList = r
  /-- As many items as two sequences have are matched if the two are, one after the other. -/
  exactly_add : ∀ k l w n, ctx.Answers (item.exactly (k + l)) text pos (.ok (.matched w n)) ↔
    ∃ us vs, us.length = k ∧ vs.length = l ∧ w = .tuple (us ++ vs) ∧
      ctx.Answers (.sequence [item.exactly k, item.exactly l]) text pos
        (.ok (.matched (.tuple [.tuple us, .tuple vs]) n))
  exactly_exactly : ∀ k l w n,
    ctx.Answers (.sequence [item.exactly k, item.exactly l]) text pos (.ok (.matched w n)) →
      ∃ us vs, us.length = k ∧ vs.length = l ∧ w = .tuple [.tuple us, .tuple vs]

variable {ctx : Context α} {item : Node α}

/-- A repetition is the maximal row of matches of its item that consume something. -/
theorem repeats_in_row (hinside : ctx.bindings.KeepsInside item) (text : Text) (pos : Int) :
    RepeatsInRow ctx item text pos where
  error_or_matched limit := by
    rw [attempt]
    rcases matchNode_many_cases ctx limit (.ofText text) [] item pos with ⟨vs, stop, h⟩ | ⟨f, h⟩
    · exact .inr ⟨vs, stop - pos, by rw [h]; rfl⟩
    · exact .inl (by rw [h]; cases f <;> exact ⟨_, rfl⟩)
  exists_matched hitem := by
    have hends : ∀ p, pos ≤ p → p ≤ max pos (Input.ofText text).size →
        ∃ o, ctx.Ends (.ofText text) [] item p o ∧ ∀ f, o ≠ .fault f := by
      intro p hp hmax
      obtain ⟨a, ha⟩ := hitem p hp (by simpa using hmax)
      exact exists_ends_of_answers ha
    obtain ⟨vs, stop, h⟩ := exists_ends_many hinside hends
    exact ⟨vs, stop - pos, answers_matched_iff.mpr (by rwa [add_sub_cancel])⟩
  matched_iff vs n := by
    rw [answers_matched_iff, answers_matched_iff, ends_many_success_iff hinside]
    refine ⟨fun h => ⟨?_, h⟩, And.right⟩
    exact ends_sequence_success_iff.mpr ⟨vs, rfl, h.1.endsAll⟩
  rests_after w n h := by
    obtain ⟨vs, v, rfl, hmany, hitem⟩ := ends_many_then_item hinside (answers_matched_iff.mp h)
    exact ⟨vs, v, rfl, answers_matched_iff.mpr hmany,
      answers_matched_iff.mpr (by rwa [Int.add_zero])⟩
  many_optional r := by
    simp only [answers_iff, ends_many_optional]
  many_many r := by
    simp only [answers_iff, ends_many_many hinside]
    constructor
    · rintro ⟨_, ⟨o, ho, rfl⟩, rfl⟩
      exact ⟨_, ⟨o, ho, rfl⟩, (o.toAttempt_inList text pos).symm⟩
    · rintro ⟨_, ⟨o, ho, rfl⟩, rfl⟩
      exact ⟨_, ⟨o, ho, rfl⟩, o.toAttempt_inList text pos⟩
  exactly_add k l w n := by
    simp only [answers_matched_iff, ends_exactly_add]
  exactly_exactly k l w n h := ends_exactly_exactly (answers_matched_iff.mp h)

namespace Trees

theorem isQuiet (node : Node Action) : context.IsQuiet node := by
  intro item act _ v inner t h
  obtain ⟨w, hw⟩ := perform_value act v
  cases hw.symm.trans h

/-- Three trees in a row, up to a bracket that closes none. -/
theorem repeats_in_row_brackets :
    context.bindings.KeepsInside ref ∧
      context.Answers (ref.exactly 3) "ab(c))" 0
        (.ok (.matched (.tuple [.int 1, .int 1, .list [.int 1]]) 5)) ∧
      Rests context (.ofText "ab(c))") [] ref 5 ∧
      context.Answers (.many ref.optional) "ab(c))" 0
        (.ok (.matched (.list [.int 1, .int 1, .list [.int 1]]) 5)) ∧
      context.Answers (.many (.many ref)) "ab(c))" 0
        (.ok (.matched (.list [.list [.int 1, .int 1, .list [.int 1]]]) 5)) := by
  have hinside := isRegular.keepsInside
  have h := repeats_in_row hinside "ab(c))" 0
  have hmany : context.Answers (.many ref) "ab(c))" 0
      (.ok (.matched (.list [.int 1, .int 1, .list [.int 1]]) 5)) :=
    answers_of_isQuiet 20 (isQuiet _) rfl nofun
  obtain ⟨hexactly, -, hrests⟩ := (h.matched_iff _ _).mp hmany
  exact ⟨hinside, hexactly, hrests, (h.many_optional _).mpr hmany,
    (h.many_many _).mpr ⟨_, hmany, rfl⟩⟩

end Trees

end Peg
