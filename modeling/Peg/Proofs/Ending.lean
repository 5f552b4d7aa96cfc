import Peg.Proofs.Room

/-!
# What a match comes to

`Context.Ends` says what a match comes to when the limit is out of reach: some number of
levels leaves it room, and under that limit it ends so. It does not matter which number,
because two of them agree at the greater one. So the relation is a function of the grammar,
the text and the position, and the limit is gone from it.

That makes the rules of the nodes rules about ends. What a sequence, a choice, a repetition
and an exclusion come to is said in terms of what their parts come to, by `EndsAll`,
`EndsFirst`, `EndsMany` and `Context.guard`, which go through the parts as the loops of the
matcher do. A law of the constructs is proved from these rules without a word about levels.

`Context.Answers` is the same for attempts.
-/

namespace Peg

variable {α : Type} [Named α]

open Peg.Frame

/-- Out of reach of the limit the match ends so. -/
def Context.Ends (ctx : Context α) (input : Input) (active : Active) (node : Node α) (pos : Int)
    (o : Match α) : Prop :=
  ∃ limit, HasRoom ctx ⟨limit, input, active, node, pos⟩ ∧
    matchNode ctx limit input active node pos = o

variable {ctx : Context α} {input : Input} {active : Active} {node : Node α} {pos : Int}

namespace Context.Ends

variable {o o' : Match α}

/-- From some number of levels on the match has room. -/
theorem exists_levels (h : ctx.Ends input active node pos o) : ∃ levels, ∀ limit ≥ levels,
    HasRoom ctx ⟨limit, input, active, node, pos⟩ ∧
      matchNode ctx limit input active node pos = o := by
  obtain ⟨levels, hroom, rfl⟩ := h
  exact ⟨levels, fun limit hle => hroom.under hle⟩

/-- A match comes to one end. -/
theorem unique (h : ctx.Ends input active node pos o) (h' : ctx.Ends input active node pos o') :
    o = o' := by
  obtain ⟨levels, hlevels⟩ := h.exists_levels
  obtain ⟨levels', hlevels'⟩ := h'.exists_levels
  exact (hlevels (max levels levels') (Nat.le_max_left _ _)).2.symm.trans
    (hlevels' (max levels levels') (Nat.le_max_right _ _)).2

end Context.Ends

/-! ## The loops -/

variable (ctx input active)

/-- What a sequence of items comes to. -/
def EndsAll : List (Node α) → Int → Outcome (ParseError α) (List (Value α)) → Prop
  | [], pos, o => .success [] pos = o
  | n :: ns, pos, o => ∃ first, ctx.Ends input active n pos first ∧
    match first with
    | .success v stop => ∃ rest, EndsAll ns stop rest ∧ rest.map (v :: ·) = o
    | .failure e => .failure e = o
    | .fault f => .fault f = o

/-- What an ordered choice between alternatives comes to. -/
def EndsFirst (pos : Int) : List (Node α) → Outcome (List (ParseError α)) (Value α) → Prop
  | [], o => .failure [] = o
  | n :: ns, o => ∃ first, ctx.Ends input active n pos first ∧
    match first with
    | .success v stop => .success v stop = o
    | .failure e => ∃ rest, EndsFirst pos ns rest ∧ rest.mapError (e :: ·) = o
    | .fault f => .fault f = o

/-- What the repetition of an item comes to. -/
def EndsMany (item : Node α) : (room : Nat) → Int →
    Outcome (ParseError α) (List (Value α)) → Prop
  | 0, pos, o => .success [] pos = o
  | room + 1, pos, o => ∃ first, ctx.Ends input active item pos first ∧
    match first with
    | .success v stop =>
      if stop = pos then .success [] pos = o
      else ∃ rest, EndsMany item room stop rest ∧ rest.map (v :: ·) = o
    | .failure _ => .success [] pos = o
    | .fault f => .fault f = o

variable {ctx input active} {limit : Nat}

section All

variable {items : List (Node α)} {o : Outcome (ParseError α) (List (Value α))}

theorem endsAll_of_hasRoom
    (h : ∀ x ∈ triedAll (matchNode ctx limit input active) items pos,
      HasRoom ctx ⟨limit, input, active, x.1, x.2⟩) :
    EndsAll ctx input active items pos (matchAll (matchNode ctx limit input active) items pos) := by
  induction items generalizing pos with
  | nil => rfl
  | cons n ns ih =>
      rw [triedAll] at h
      refine ⟨_, ⟨limit, h (n, pos) List.mem_cons_self, rfl⟩, ?_⟩
      rw [matchAll]
      cases hn : matchNode ctx limit input active n pos with
      | failure _ | fault _ => rfl
      | success v stop =>
          rw [hn] at h
          exact ⟨_, ih fun x hx => h x (List.mem_cons_of_mem _ hx), rfl⟩

theorem EndsAll.exists_levels (h : EndsAll ctx input active items pos o) :
    ∃ levels, ∀ limit ≥ levels,
      (∀ x ∈ triedAll (matchNode ctx limit input active) items pos,
        HasRoom ctx ⟨limit, input, active, x.1, x.2⟩) ∧
      matchAll (matchNode ctx limit input active) items pos = o := by
  induction items generalizing pos o with
  | nil => exact ⟨0, fun limit _ => ⟨by simp [triedAll], h⟩⟩
  | cons n ns ih =>
      obtain ⟨first, hn, hnext⟩ := h
      obtain ⟨levels, hlevels⟩ := hn.exists_levels
      cases first with
      | failure _ | fault _ =>
          refine ⟨levels, fun limit hle => ?_⟩
          obtain ⟨hroom, heq⟩ := hlevels limit hle
          rw [triedAll, matchAll, heq]
          exact ⟨by simpa using hroom, hnext⟩
      | success v stop =>
          obtain ⟨rest, hrest, hmap⟩ := hnext
          obtain ⟨levels', hlevels'⟩ := ih hrest
          refine ⟨max levels levels', fun limit hle => ?_⟩
          obtain ⟨hroom, heq⟩ := hlevels limit (by omega)
          obtain ⟨hrooms, heqs⟩ := hlevels' limit (by omega)
          rw [triedAll, matchAll, heq, Outcome.andThen, heqs]
          refine ⟨fun x hx => ?_, hmap⟩
          rcases List.mem_cons.mp hx with rfl | hx
          · exact hroom
          · exact hrooms x hx

/-- A sequence comes to what its items come to, one after the other. -/
theorem ends_sequence {o : Match α} : ctx.Ends input active (.sequence items) pos o ↔
    ∃ r, EndsAll ctx input active items pos r ∧ r.map .tuple = o := by
  constructor
  · rintro ⟨limit, hroom, heq⟩
    obtain ⟨limit, rfl⟩ := hroom.exists_limit_eq
    exact ⟨_, endsAll_of_hasRoom fun x hx => hroom.started (.item hx), heq⟩
  · rintro ⟨r, hr, heq⟩
    obtain ⟨levels, hlevels⟩ := hr.exists_levels
    obtain ⟨hrooms, hmatch⟩ := hlevels levels (Nat.le_refl _)
    refine ⟨levels + 1, hasRoom_of_started nofun fun g hg => ?_, ?_⟩
    · cases hg with
      | item hx => exact hrooms _ hx
    · rw [matchNode_sequence, hmatch, heq]

end All

section First

variable {alternatives : List (Node α)} {o : Outcome (List (ParseError α)) (Value α)}

theorem endsFirst_of_hasRoom
    (h : ∀ n ∈ triedFirst (matchNode ctx limit input active · pos) alternatives,
      HasRoom ctx ⟨limit, input, active, n, pos⟩) :
    EndsFirst ctx input active pos alternatives
      (matchFirst (matchNode ctx limit input active · pos) alternatives) := by
  induction alternatives with
  | nil => rfl
  | cons n ns ih =>
      rw [triedFirst] at h
      refine ⟨_, ⟨limit, h n List.mem_cons_self, rfl⟩, ?_⟩
      rw [matchFirst]
      cases hn : matchNode ctx limit input active n pos with
      | success _ _ | fault _ => rfl
      | failure e =>
          rw [hn] at h
          exact ⟨_, ih fun m hm => h m (List.mem_cons_of_mem _ hm), rfl⟩

theorem EndsFirst.exists_levels (h : EndsFirst ctx input active pos alternatives o) :
    ∃ levels, ∀ limit ≥ levels,
      (∀ n ∈ triedFirst (matchNode ctx limit input active · pos) alternatives,
        HasRoom ctx ⟨limit, input, active, n, pos⟩) ∧
      matchFirst (matchNode ctx limit input active · pos) alternatives = o := by
  induction alternatives generalizing o with
  | nil => exact ⟨0, fun limit _ => ⟨by simp [triedFirst], h⟩⟩
  | cons n ns ih =>
      obtain ⟨first, hn, hnext⟩ := h
      obtain ⟨levels, hlevels⟩ := hn.exists_levels
      cases first with
      | success _ _ | fault _ =>
          refine ⟨levels, fun limit hle => ?_⟩
          obtain ⟨hroom, heq⟩ := hlevels limit hle
          rw [triedFirst, matchFirst, heq]
          exact ⟨by simpa using hroom, hnext⟩
      | failure e =>
          obtain ⟨rest, hrest, hmap⟩ := hnext
          obtain ⟨levels', hlevels'⟩ := ih hrest
          refine ⟨max levels levels', fun limit hle => ?_⟩
          obtain ⟨hroom, heq⟩ := hlevels limit (by omega)
          obtain ⟨hrooms, heqs⟩ := hlevels' limit (by omega)
          rw [triedFirst, matchFirst, heq]
          simp only [heqs]
          refine ⟨fun m hm => ?_, hmap⟩
          rcases List.mem_cons.mp hm with rfl | hm
          · exact hroom
          · exact hrooms m hm

/-- A choice comes to what the first of its alternatives comes to that does not fail. -/
theorem ends_choice {o : Match α} : ctx.Ends input active (.choice alternatives) pos o ↔
    ∃ r, EndsFirst ctx input active pos alternatives r ∧ r.mapError (.exhausted · pos []) = o := by
  constructor
  · rintro ⟨limit, hroom, heq⟩
    obtain ⟨limit, rfl⟩ := hroom.exists_limit_eq
    exact ⟨_, endsFirst_of_hasRoom fun n hn => hroom.started (.alternative hn), heq⟩
  · rintro ⟨r, hr, heq⟩
    obtain ⟨levels, hlevels⟩ := hr.exists_levels
    obtain ⟨hrooms, hmatch⟩ := hlevels levels (Nat.le_refl _)
    refine ⟨levels + 1, hasRoom_of_started nofun fun g hg => ?_, ?_⟩
    · cases hg with
      | alternative hn => exact hrooms _ hn
    · rw [matchNode_choice, hmatch, heq]

end First

section Many

variable {item : Node α} {room : Nat} {o : Outcome (ParseError α) (List (Value α))}

theorem endsMany_of_hasRoom
    (h : ∀ p ∈ triedMany (matchNode ctx limit input active item) room pos,
      HasRoom ctx ⟨limit, input, active, item, p⟩) :
    EndsMany ctx input active item room pos
      (matchMany (matchNode ctx limit input active item) room pos) := by
  induction room generalizing pos with
  | zero => rfl
  | succ room ih =>
      rw [triedMany] at h
      refine ⟨_, ⟨limit, h pos List.mem_cons_self, rfl⟩, ?_⟩
      rw [matchMany]
      cases hp : matchNode ctx limit input active item pos with
      | failure _ | fault _ => rfl
      | success v stop =>
          rw [hp] at h
          simp only [] at h ⊢
          by_cases hrests : stop = pos
          · rw [if_pos hrests, if_pos hrests]
          · rw [if_neg hrests] at h
            rw [if_neg hrests, if_neg hrests]
            exact ⟨_, ih fun p hp => h p (List.mem_cons_of_mem _ hp), rfl⟩

theorem EndsMany.exists_levels (h : EndsMany ctx input active item room pos o) :
    ∃ levels, ∀ limit ≥ levels,
      (∀ p ∈ triedMany (matchNode ctx limit input active item) room pos,
        HasRoom ctx ⟨limit, input, active, item, p⟩) ∧
      matchMany (matchNode ctx limit input active item) room pos = o := by
  induction room generalizing pos o with
  | zero => exact ⟨0, fun limit _ => ⟨by simp [triedMany], h⟩⟩
  | succ room ih =>
      obtain ⟨first, hn, hnext⟩ := h
      obtain ⟨levels, hlevels⟩ := hn.exists_levels
      cases first with
      | failure _ | fault _ =>
          refine ⟨levels, fun limit hle => ?_⟩
          obtain ⟨hroom, heq⟩ := hlevels limit hle
          rw [triedMany, matchMany, heq]
          exact ⟨by simpa using hroom, hnext⟩
      | success v stop =>
          simp only [] at hnext
          by_cases hrests : stop = pos
          · rw [if_pos hrests] at hnext
            refine ⟨levels, fun limit hle => ?_⟩
            obtain ⟨hroom, heq⟩ := hlevels limit hle
            rw [triedMany, matchMany, heq]
            simp only [if_pos hrests]
            exact ⟨by simpa using hroom, hnext⟩
          · rw [if_neg hrests] at hnext
            obtain ⟨rest, hrest, hmap⟩ := hnext
            obtain ⟨levels', hlevels'⟩ := ih hrest
            refine ⟨max levels levels', fun limit hle => ?_⟩
            obtain ⟨hroom, heq⟩ := hlevels limit (by omega)
            obtain ⟨hrooms, heqs⟩ := hlevels' limit (by omega)
            rw [triedMany, matchMany, heq]
            simp only [if_neg hrests, heqs]
            refine ⟨fun p hp => ?_, hmap⟩
            rcases List.mem_cons.mp hp with rfl | hp
            · exact hroom
            · exact hrooms p hp

/-- A repetition comes to what its rounds come to. -/
theorem ends_many {o : Match α} : ctx.Ends input active (.many item) pos o ↔
    ∃ r, EndsMany ctx input active item (input.room pos) pos r ∧ r.map .list = o := by
  constructor
  · rintro ⟨limit, hroom, heq⟩
    obtain ⟨limit, rfl⟩ := hroom.exists_limit_eq
    exact ⟨_, endsMany_of_hasRoom fun p hp => hroom.started (.round hp), heq⟩
  · rintro ⟨r, hr, heq⟩
    obtain ⟨levels, hlevels⟩ := hr.exists_levels
    obtain ⟨hrooms, hmatch⟩ := hlevels levels (Nat.le_refl _)
    refine ⟨levels + 1, hasRoom_of_started nofun fun g hg => ?_, ?_⟩
    · cases hg with
      | round hp => exact hrooms _ hp
    · rw [matchNode_many, hmatch, heq]

end Many

/-! ## Two parts -/

theorem ends_pair {a b : Node α} {o : Match α} :
    ctx.Ends input active (.sequence [a, b]) pos o ↔
      ∃ first, ctx.Ends input active a pos first ∧
        match first with
        | .success v stop => ∃ second, ctx.Ends input active b stop second ∧
          second.map (fun w => .tuple [v, w]) = o
        | .failure e => .failure e = o
        | .fault f => .fault f = o := by
  rw [ends_sequence]
  constructor
  · rintro ⟨_, ⟨first, ha, hfirst⟩, rfl⟩
    refine ⟨first, ha, ?_⟩
    cases first with
    | failure _ | fault _ => subst hfirst; rfl
    | success v stop =>
        obtain ⟨_, ⟨second, hb, hsecond⟩, rfl⟩ := hfirst
        refine ⟨second, hb, ?_⟩
        cases second with
        | failure _ | fault _ => subst hsecond; rfl
        | success w stop' =>
            obtain ⟨_, rfl, rfl⟩ := hsecond
            rfl
  · rintro ⟨first, ha, hfirst⟩
    cases first with
    | failure _ | fault _ => exact ⟨_, ⟨_, ha, rfl⟩, hfirst⟩
    | success v stop =>
        obtain ⟨second, hb, rfl⟩ := hfirst
        cases second with
        | failure _ | fault _ => exact ⟨_, ⟨_, ha, _, ⟨_, hb, rfl⟩, rfl⟩, rfl⟩
        | success w stop' => exact ⟨_, ⟨_, ha, _, ⟨_, hb, _, rfl, rfl⟩, rfl⟩, rfl⟩

theorem ends_either {a b : Node α} {o : Match α} :
    ctx.Ends input active (.choice [a, b]) pos o ↔
      ∃ first, ctx.Ends input active a pos first ∧
        match first with
        | .success v stop => .success v stop = o
        | .failure e => ∃ second, ctx.Ends input active b pos second ∧
          second.mapError (fun e' => .exhausted [e, e'] pos []) = o
        | .fault f => .fault f = o := by
  rw [ends_choice]
  constructor
  · rintro ⟨_, ⟨first, ha, hfirst⟩, rfl⟩
    refine ⟨first, ha, ?_⟩
    cases first with
    | success _ _ | fault _ => subst hfirst; rfl
    | failure e =>
        obtain ⟨_, ⟨second, hb, hsecond⟩, rfl⟩ := hfirst
        refine ⟨second, hb, ?_⟩
        cases second with
        | success _ _ | fault _ => subst hsecond; rfl
        | failure e' =>
            obtain ⟨_, rfl, rfl⟩ := hsecond
            rfl
  · rintro ⟨first, ha, hfirst⟩
    cases first with
    | success _ _ | fault _ => exact ⟨_, ⟨_, ha, rfl⟩, hfirst⟩
    | failure e =>
        obtain ⟨second, hb, rfl⟩ := hfirst
        cases second with
        | success _ _ | fault _ => exact ⟨_, ⟨_, ha, _, ⟨_, hb, rfl⟩, rfl⟩, rfl⟩
        | failure e' => exact ⟨_, ⟨_, ha, _, ⟨_, hb, _, rfl, rfl⟩, rfl⟩, rfl⟩

/-! ## The other nodes -/

/-- What becomes of a match up to `stop` when the match of what is forbidden ends. -/
def Context.guard (ctx : Context α) (forbidden : Node α) (pos : Int) (v : Value α) (stop : Int) :
    Match α → Match α
  | .success .. => failShowing pos
    (forbidden.describe ctx.bindings.isBound Node.usualDepth) .excluded
  | .failure _ => .success v stop
  | .fault f => .fault f

/-- An exclusion looks at what is forbidden only after its item matched. -/
theorem ends_exclusion {item forbidden : Node α} {o : Match α} :
    ctx.Ends input active (.exclusion item forbidden) pos o ↔
      ∃ first, ctx.Ends input active item pos first ∧
        match first with
        | .success v stop => ∃ barred, ctx.Ends input active forbidden pos barred ∧
          ctx.guard forbidden pos v stop barred = o
        | .failure e => .failure e = o
        | .fault f => .fault f = o := by
  constructor
  · rintro ⟨limit, hroom, heq⟩
    obtain ⟨limit, rfl⟩ := hroom.exists_limit_eq
    refine ⟨_, ⟨limit, hroom.started .base, rfl⟩, ?_⟩
    rw [matchNode_exclusion] at heq
    cases hitem : matchNode ctx limit input active item pos with
    | failure _ | fault _ => rw [hitem] at heq; exact heq
    | success v stop =>
        rw [hitem] at heq
        exact ⟨_, ⟨limit, hroom.started (.forbidden hitem), rfl⟩, heq⟩
  · rintro ⟨first, hitem, hnext⟩
    obtain ⟨levels, hlevels⟩ := hitem.exists_levels
    cases first with
    | failure _ | fault _ =>
        obtain ⟨hroom, heq⟩ := hlevels levels (Nat.le_refl _)
        refine ⟨levels + 1, hasRoom_of_started nofun fun g hg => ?_, ?_⟩
        · cases hg with
          | base => exact hroom
          | forbidden hmatch => cases heq.symm.trans hmatch
        · rw [matchNode_exclusion, heq]
          exact hnext
    | success v stop =>
        obtain ⟨barred, hbarred, hguard⟩ := hnext
        obtain ⟨levels', hlevels'⟩ := hbarred.exists_levels
        obtain ⟨hroom, heq⟩ := hlevels (max levels levels') (Nat.le_max_left _ _)
        obtain ⟨hroom', heq'⟩ := hlevels' (max levels levels') (Nat.le_max_right _ _)
        refine ⟨max levels levels' + 1, hasRoom_of_started nofun fun g hg => ?_, ?_⟩
        · cases hg with
          | base => exact hroom
          | forbidden _ => exact hroom'
        · rw [matchNode_exclusion, heq, Outcome.andThen, heq']
          exact hguard

theorem ends_empty {shared : Bool} {o : Match α} :
    ctx.Ends input active (.empty shared) pos o ↔ .success .null pos = o := by
  constructor
  · rintro ⟨limit, hroom, heq⟩
    obtain ⟨limit, rfl⟩ := hroom.exists_limit_eq
    exact heq
  · exact fun h => ⟨1, hasRoom_of_started nofun nofun, h⟩

/-! ## Attempts -/

/-- Out of reach of the limit this is the answer of the attempt. -/
def Context.Answers (ctx : Context α) (node : Node α) (text : Text) (pos : Int)
    (r : Except (Halt α) (Attempt α)) : Prop :=
  ∃ limit, (top limit node text pos).HasRoom ctx ∧ attempt ctx limit node text pos = r

section Attempts

variable {text : Text} {n : Int} {v : Value α} {e : ParseError α}

theorem answers_iff {r : Except (Halt α) (Attempt α)} : ctx.Answers node text pos r ↔
    ∃ o, ctx.Ends (.ofText text) [] node pos o ∧ o.toAttempt text pos = r := by
  constructor
  · rintro ⟨limit, hroom, heq⟩
    exact ⟨_, ⟨limit, hroom, rfl⟩, heq⟩
  · rintro ⟨o, ⟨limit, hroom, rfl⟩, heq⟩
    exact ⟨limit, hroom, heq⟩

theorem answers_matched_iff : ctx.Answers node text pos (.ok (.matched v n)) ↔
    ctx.Ends (.ofText text) [] node pos (.success v (pos + n)) := by
  rw [answers_iff]
  constructor
  · rintro ⟨o, ho, heq⟩
    rwa [Outcome.toAttempt_eq_matched.mp heq] at ho
  · exact fun h => ⟨_, h, Outcome.toAttempt_eq_matched.mpr rfl⟩

theorem exists_ends_of_answers {a : Attempt α} (h : ctx.Answers node text pos (.ok a)) :
    ∃ o, ctx.Ends (.ofText text) [] node pos o ∧ ∀ f, o ≠ .fault f := by
  obtain ⟨o, ho, heq⟩ := answers_iff.mp h
  refine ⟨o, ho, ?_⟩
  rintro f rfl
  cases f <;> cases heq

/-- From some number of levels on an attempt has its answer. -/
theorem Context.Answers.exists_levels {r : Except (Halt α) (Attempt α)}
    (h : ctx.Answers node text pos r) :
    ∃ levels, ∀ limit ≥ levels, attempt ctx limit node text pos = r := by
  obtain ⟨o, ho, rfl⟩ := answers_iff.mp h
  obtain ⟨levels, hlevels⟩ := ho.exists_levels
  exact ⟨levels, fun limit hle => by rw [attempt, (hlevels limit hle).2]⟩

/-- Where no action starts a parse, an attempt that is not refused has its answer. -/
theorem answers_of_isQuiet (limit : Nat) {r : Except (Halt α) (Attempt α)}
    (hquiet : ctx.IsQuiet node) (h : attempt ctx limit node text pos = r)
    (hr : r ≠ nestedTooDeep text pos) : ctx.Answers node text pos r :=
  ⟨limit, hasRoom_of_isQuiet hquiet fun hdeep =>
    hr (h.symm.trans (Outcome.toAttempt_eq_nestedTooDeep_iff.mpr hdeep)), h⟩

/-- Every attempt has an answer on what the builders make, if no action starts a parse and
no error of an action has to do with the end of the stack. -/
theorem exists_answers (hinside : ctx.bindings.KeepsInside node) (hquiet : ctx.IsQuiet node)
    (hraised : ∀ item act v r, ctx.bindings.Reaches node (.action item act) →
      ctx.perform act v = .raised r → r.kind ≠ .recursion)
    (hhides : ∀ r, ctx.Raises node r → ¬ r.HidesEnd) :
    ∃ r, ctx.Answers node text pos r := by
  obtain ⟨levels, hlevels⟩ := exists_levels_above ctx node text pos hinside hraised hhides
  have hne := hlevels levels (Nat.le_refl _)
  exact ⟨_, levels, hasRoom_of_isQuiet hquiet hne, rfl⟩

end Attempts

end Peg
