import Peg.Proofs.Construction
import Peg.Proofs.Ending
import Peg.Proofs.Furthest

/-!
# Grammars written in another way

A choice among the alternatives of a choice can be spliced into it. What two alternatives
both start with can be matched before the choice. And what is excluded twice can be excluded
once, as a choice. Neither changes what an attempt comes to, as long as the limit is out of
reach: the two nodes have the same matches and the same faults, and they fail together.

The errors of failures differ, since a choice inside a choice makes one more level of the
tree, and what is matched in both alternatives is complained of twice. But the leaves are the
same, up to repetition, and in the same order, and so the furthest error is the same.

`Corresponds` compares two sides in both directions, so that each has an answer whenever the
other has. What one node comes to is said by the rules of `Ending`, part by part, and
`Corresponds.bind` follows these rules on both sides at once.
-/

namespace Peg

variable {α β β' γ γ' ε ε' : Type}

/-! ## Two sides -/

/-- Whatever the one side comes to, the other comes to something that corresponds to it. -/
structure Corresponds (R : β → γ → Prop) (P : β → Prop) (Q : γ → Prop) : Prop where
  forth : ∀ x, P x → ∃ y, Q y ∧ R x y
  back : ∀ y, Q y → ∃ x, P x ∧ R x y

namespace Corresponds

variable {R : β → γ → Prop} {S : β' → γ' → Prop} {P P' : β → Prop} {Q Q' : γ → Prop}

theorem same (P : β → Prop) : Corresponds (· = ·) P P :=
  ⟨fun x hx => ⟨x, hx, rfl⟩, fun x hx => ⟨x, hx, rfl⟩⟩

theorem of_related {x : β} {y : γ} (h : R x y) : Corresponds R (x = ·) (y = ·) :=
  ⟨fun _ hx => ⟨y, rfl, hx ▸ h⟩, fun _ hy => ⟨x, rfl, hy ▸ h⟩⟩

theorem congr (hP : ∀ x, P x ↔ P' x) (hQ : ∀ y, Q y ↔ Q' y) (h : Corresponds R P' Q') :
    Corresponds R P Q := by
  obtain rfl : P = P' := funext fun x => propext (hP x)
  obtain rfl : Q = Q' := funext fun y => propext (hQ y)
  exact h

/-- Where two sides go on from ends that correspond. -/
theorem bind {M : β' → Prop} {N : γ' → Prop} {K : β' → β → Prop} {L : γ' → γ → Prop}
    (h : Corresponds S M N)
    (hnext : ∀ m n, M m → N n → S m n → Corresponds R (K m) (L n)) :
    Corresponds R (fun x => ∃ m, M m ∧ K m x) fun y => ∃ n, N n ∧ L n y where
  forth := by
    rintro x ⟨m, hm, hx⟩
    obtain ⟨n, hn, hmn⟩ := h.forth m hm
    obtain ⟨y, hy, hxy⟩ := (hnext m n hm hn hmn).forth x hx
    exact ⟨y, ⟨n, hn, hy⟩, hxy⟩
  back := by
    rintro y ⟨n, hn, hy⟩
    obtain ⟨m, hm, hmn⟩ := h.back n hn
    obtain ⟨x, hx, hxy⟩ := (hnext m n hm hn hmn).back y hy
    exact ⟨x, ⟨m, hm, hx⟩, hxy⟩

theorem map {M : β' → Prop} {N : γ' → Prop} {f : β' → β} {g : γ' → γ} (h : Corresponds S M N)
    (hnext : ∀ m n, M m → N n → S m n → R (f m) (g n)) :
    Corresponds R (fun x => ∃ m, M m ∧ f m = x) fun y => ∃ n, N n ∧ g n = y :=
  h.bind fun m n hm hn hmn => of_related (hnext m n hm hn hmn)

theorem imp {R' : β → γ → Prop} (h : Corresponds R P Q)
    (himp : ∀ x y, P x → Q y → R x y → R' x y) : Corresponds R' P Q where
  forth x hx := by
    obtain ⟨y, hy, hxy⟩ := h.forth x hx
    exact ⟨y, hy, himp x y hx hy hxy⟩
  back y hy := by
    obtain ⟨x, hx, hxy⟩ := h.back y hy
    exact ⟨x, hx, himp x y hx hy hxy⟩

end Corresponds

/-- The two ends are the same, but for the errors of failures. -/
abbrev Outcome.EqualUpTo (F : ε → ε' → Prop) : Outcome ε β → Outcome ε' β → Prop :=
  Related (· = ·) F (· = ·) fun _ => False

theorem Outcome.EqualUpTo.success {F : ε → ε' → Prop} {v : β} {stop : Int} :
    EqualUpTo F (.success v stop) (.success v stop) := Related.success rfl

theorem Outcome.EqualUpTo.fault {F : ε → ε' → Prop} {f : Fault} :
    EqualUpTo F (.fault f : Outcome ε β) (.fault f) := Related.fault rfl

theorem Outcome.EqualUpTo.imp {F G : ε → ε' → Prop} {o : Outcome ε β} {o' : Outcome ε' β}
    (h : o.EqualUpTo F o') (hF : ∀ e e', o = .failure e → o' = .failure e' → F e e' → G e e') :
    o.EqualUpTo G o' := by
  cases h with
  | success hstop => exact Related.success hstop
  | failure he => exact Related.failure (hF _ _ rfl rfl he)
  | fault hf => exact Related.fault hf
  | excused hf => exact hf.elim

/-- The two answers are the same, but for the errors of failures. -/
inductive AgreesUpTo (F : ParseError α → ParseError α → Prop) :
    Except (Halt α) (Attempt α) → Except (Halt α) (Attempt α) → Prop
  | matched {v consumed} : AgreesUpTo F (.ok (.matched v consumed)) (.ok (.matched v consumed))
  | failed {e e'} : F e e' → AgreesUpTo F (.ok (.failed e)) (.ok (.failed e'))
  | halted {h} : AgreesUpTo F (.error h) (.error h)

theorem Outcome.EqualUpTo.toAttempt {F : ParseError α → ParseError α → Prop} {o o' : Match α}
    (h : o.EqualUpTo F o') (text : Text) (pos : Int) :
    AgreesUpTo F (o.toAttempt text pos) (o'.toAttempt text pos) := by
  cases h with
  | success hstop => subst hstop; exact .matched
  | failure he => exact .failed he
  | fault hf => subst hf; cases ‹Fault› <;> exact .halted
  | excused hf => exact hf.elim

/-! ## The furthest error -/

namespace ParseError

variable {e e' x y : ParseError α} {l : List (ParseError α)}

theorem IsFirstFurthest.unique (hx : IsFirstFurthest l x) (hy : IsFirstFurthest l y) : x = y := by
  have hpos : x.pos = y.pos := Int.le_antisymm (hy.pos_le x hx.mem) (hx.pos_le y hy.mem)
  obtain ⟨before, after, rfl, hbefore⟩ := hx.first
  obtain ⟨before', after', heq, hbefore'⟩ := hy.first
  -- Neither stands before the other, where all errors lie strictly nearer.
  rcases List.append_eq_append_iff.mp heq with ⟨between, hb, ha⟩ | ⟨between, hb, ha⟩
  · cases between with
    | nil => exact (List.cons.inj ha).1
    | cons z zs =>
        obtain rfl : x = z := (List.cons.inj ha).1
        have hlt := hbefore' x (by rw [hb]; simp)
        omega
  · cases between with
    | nil => exact (List.cons.inj ha).1.symm
    | cons z zs =>
        obtain rfl : y = z := (List.cons.inj ha).1
        have hlt := hbefore y (by rw [hb]; simp)
        omega

/-- The furthest error is found in the leaves alone. -/
theorem furthest_eq_of_leaves (h : e.IsOrdered) (h' : e'.IsOrdered)
    (hleaves : e.leaves = e'.leaves) :
    e.furthest = e'.furthest :=
  h.isFirstFurthest.unique (hleaves ▸ h'.isFirstFurthest)

/-- Leaves that are there twice count once. -/
theorem furthest_eq_of_leaves_twice (h : e.IsOrdered) (h' : e'.IsOrdered)
    (hleaves : e.leaves = e'.leaves ++ e'.leaves) : e.furthest = e'.furthest := by
  refine h.isFirstFurthest.unique ?_
  rw [hleaves]
  exact h'.isFirstFurthest.append_of_le h'.isFirstFurthest.pos_le

end ParseError

/-! ## Exchanging two nodes -/

variable [Named α]

/-- Attempts at either node come to the same, but for the errors of failures. -/
def Context.Exchanges (ctx : Context α) (F : ParseError α → ParseError α → Prop)
    (node node' : Node α) : Prop :=
  ∀ text pos, Corresponds (AgreesUpTo F) (ctx.Answers node text pos) (ctx.Answers node' text pos)

section Laws

variable {ctx : Context α} {input : Input} {active : Active} {pos : Int}
  {alternatives before inner after : List (Node α)} {a b c f g : Node α}

theorem exchanges_of_ends {F : ParseError α → ParseError α → Prop} {node node' : Node α}
    (h : ∀ input active pos, Corresponds (Outcome.EqualUpTo F) (ctx.Ends input active node pos)
      (ctx.Ends input active node' pos)) : ctx.Exchanges F node node' := fun text pos =>
  ((h (.ofText text) [] pos).map fun _ _ _ _ hsame => hsame.toAttempt text pos).congr
    (fun _ => answers_iff) fun _ => answers_iff

theorem Context.Ends.isOrdered {node : Node α} {e : ParseError α}
    (h : ctx.Ends input active node pos (.failure e)) : e.IsOrdered := by
  obtain ⟨limit, -, heq⟩ := h
  exact Frame.isOrdered_of_failure (f := ⟨limit, input, active, node, pos⟩) heq

/-! ### A choice in a choice -/

theorem EndsFirst.length_eq {es : List (ParseError α)}
    (h : EndsFirst ctx input active pos alternatives (.failure es)) :
    es.length = alternatives.length := by
  induction alternatives generalizing es with
  | nil => cases h; rfl
  | cons n ns ih =>
      obtain ⟨first, -, hnext⟩ := h
      cases first with
      | success _ _ | fault _ => cases hnext
      | failure e =>
          obtain ⟨rest, hrest, heq⟩ := hnext
          obtain ⟨es, rfl, rfl⟩ := Outcome.mapError_eq_failure.mp heq
          rw [List.length_cons, List.length_cons, ih hrest]

theorem endsFirst_append {o : Outcome (List (ParseError α)) (Value α)} :
    EndsFirst ctx input active pos (before ++ after) o ↔
      ∃ first, EndsFirst ctx input active pos before first ∧
        match first with
        | .success v stop => .success v stop = o
        | .failure es => ∃ rest, EndsFirst ctx input active pos after rest ∧
          rest.mapError (es ++ ·) = o
        | .fault f => .fault f = o := by
  induction before generalizing o with
  | nil =>
      constructor
      · intro h
        refine ⟨.failure [], rfl, o, h, ?_⟩
        cases o <;> rfl
      · rintro ⟨_, rfl, o, h, rfl⟩
        cases o <;> exact h
  | cons n ns ih =>
      constructor
      · rintro ⟨first, hn, hnext⟩
        cases first with
        | success _ _ | fault _ => exact ⟨_, ⟨_, hn, rfl⟩, hnext⟩
        | failure e =>
            obtain ⟨rest, hrest, rfl⟩ := hnext
            obtain ⟨mid, hmid, hlast⟩ := ih.mp hrest
            refine ⟨_, ⟨_, hn, mid, hmid, rfl⟩, ?_⟩
            cases mid with
            | success _ _ | fault _ => subst hlast; rfl
            | failure es =>
                obtain ⟨last, hafter, rfl⟩ := hlast
                exact ⟨last, hafter, by rw [Outcome.mapError_mapError]; rfl⟩
      · rintro ⟨_, ⟨first, hn, hnext⟩, hlast⟩
        refine ⟨first, hn, ?_⟩
        cases first with
        | success _ _ | fault _ => subst hnext; exact hlast
        | failure e =>
            obtain ⟨mid, hmid, rfl⟩ := hnext
            cases mid with
            | success _ _ | fault _ => exact ⟨_, ih.mpr ⟨_, hmid, rfl⟩, hlast⟩
            | failure es =>
                obtain ⟨last, hafter, rfl⟩ := hlast
                exact ⟨_, ih.mpr ⟨_, hmid, last, hafter, rfl⟩, by
                  rw [Outcome.mapError_mapError]; rfl⟩

/-- The errors of both lists have the same leaves. -/
def SameLeaves (es es' : List (ParseError α)) : Prop :=
  es.flatMap ParseError.leaves = es'.flatMap ParseError.leaves

/-- A choice that is the first alternative goes through alternatives of its own first. -/
theorem endsFirst_choice {o : Outcome (List (ParseError α)) (Value α)} :
    EndsFirst ctx input active pos (.choice inner :: after) o ↔
      ∃ first, EndsFirst ctx input active pos inner first ∧
        match first with
        | .success v stop => .success v stop = o
        | .failure es => ∃ rest, EndsFirst ctx input active pos after rest ∧
          rest.mapError (.exhausted es pos [] :: ·) = o
        | .fault f => .fault f = o := by
  constructor
  · rintro ⟨first, hfirst, hnext⟩
    obtain ⟨r, hr, rfl⟩ := ends_choice.mp hfirst
    exact ⟨r, hr, by cases r <;> exact hnext⟩
  · rintro ⟨r, hr, hnext⟩
    exact ⟨_, ends_choice.mpr ⟨r, hr, rfl⟩, by cases r <;> exact hnext⟩

theorem corresponds_splice (hinner : inner ≠ []) :
    Corresponds (Outcome.EqualUpTo SameLeaves)
      (EndsFirst ctx input active pos (.choice inner :: after))
      (EndsFirst ctx input active pos (inner ++ after)) := by
  refine ((Corresponds.same _).bind ?_).congr (fun _ => endsFirst_choice) fun _ => endsFirst_append
  rintro first _ hfirst - rfl
  cases first with
  | success v stop => exact .of_related .success
  | fault f => exact .of_related .fault
  | failure es =>
      have hes : es ≠ [] := by
        rintro rfl
        exact hinner (List.length_eq_zero_iff.mp hfirst.length_eq.symm)
      refine (Corresponds.same _).map ?_
      rintro rest _ - - rfl
      cases rest with
      | success v stop => exact .success
      | fault f => exact .fault
      | failure es' =>
          refine .failure ?_
          rw [SameLeaves, List.flatMap_cons, List.flatMap_append, ParseError.leaves_exhausted hes]

/-- What comes before is tried first on either side. -/
theorem corresponds_append {l l' : List (Node α)}
    (h : Corresponds (Outcome.EqualUpTo SameLeaves) (EndsFirst ctx input active pos l)
      (EndsFirst ctx input active pos l')) :
    Corresponds (Outcome.EqualUpTo SameLeaves) (EndsFirst ctx input active pos (before ++ l))
      (EndsFirst ctx input active pos (before ++ l')) := by
  refine ((Corresponds.same _).bind ?_).congr (fun _ => endsFirst_append) fun _ => endsFirst_append
  rintro first _ - - rfl
  cases first with
  | success v stop => exact .of_related .success
  | fault f => exact .of_related .fault
  | failure es =>
      refine h.map fun rest rest' _ _ hrest => hrest.mapError fun es₁ es₂ hes => ?_
      rw [SameLeaves, List.flatMap_append, List.flatMap_append, hes]

/-- Splicing the alternatives of a choice into the choice that it is an alternative of. -/
theorem exchanges_spliced (hinner : inner ≠ []) :
    ctx.Exchanges (fun e e' => e.furthest = e'.furthest)
      (.choice (before ++ .choice inner :: after)) (.choice (before ++ inner ++ after)) := by
  refine exchanges_of_ends fun input active pos => ?_
  have hends : Corresponds (Outcome.EqualUpTo fun e e' : ParseError α => e.leaves = e'.leaves)
      (ctx.Ends input active (.choice (before ++ .choice inner :: after)) pos)
      (ctx.Ends input active (.choice (before ++ inner ++ after)) pos) := by
    rw [List.append_assoc]
    refine ((corresponds_append (corresponds_splice hinner)).map ?_).congr
      (fun _ => ends_choice) fun _ => ends_choice
    intro r r' hr hr' hsame
    cases hsame with
    | success hstop => subst hstop; exact .success
    | fault hf => subst hf; exact .fault
    | excused hf => exact hf.elim
    | @failure es es' hes =>
        have hne : es ≠ [] := by
          rintro rfl
          have hlength := hr.length_eq
          simp at hlength
        have hne' : es' ≠ [] := by
          rintro rfl
          have hlength := hr'.length_eq
          have hpos := List.length_pos_iff.mpr hinner
          simp at hlength
          omega
        refine .failure ?_
        rw [ParseError.leaves_exhausted hne, ParseError.leaves_exhausted hne']
        exact hes
  exact hends.imp fun o o' ho ho' hsame => hsame.imp fun e e' he he' hleaves =>
    ParseError.furthest_eq_of_leaves (he ▸ ho).isOrdered (he' ▸ ho').isOrdered hleaves

/-! ### A common beginning -/

/-- The leaves of the second error are those of the first, where each may be there twice. -/
def LeavesOnce (e e' : ParseError α) : Prop :=
  e.leaves = e'.leaves ∨ e.leaves = e'.leaves ++ e'.leaves

omit [Named α] in
theorem leavesOnce_twice (e : ParseError α) : LeavesOnce (.exhausted [e, e] pos []) e :=
  .inr (by rw [ParseError.leaves_exhausted (List.cons_ne_nil _ _)]; simp)

omit [Named α] in
theorem leavesOnce_exhausted {es : List (ParseError α)} {pos' : Int} (hes : es ≠ []) :
    LeavesOnce (.exhausted es pos []) (.exhausted es pos' []) :=
  .inl (by rw [ParseError.leaves_exhausted hes, ParseError.leaves_exhausted hes])

theorem corresponds_factored : Corresponds (Outcome.EqualUpTo LeavesOnce)
    (ctx.Ends input active (.choice [.sequence [a, b], .sequence [a, c]]) pos)
    (ctx.Ends input active (.sequence [a, .choice [b, c]]) pos) where
  forth := by
    intro o h
    obtain ⟨_, hab, hnext⟩ := ends_either.mp h
    obtain ⟨first, ha, hfirst⟩ := ends_pair.mp hab
    cases first with
    | fault f =>
        subst hfirst hnext
        exact ⟨_, ends_pair.mpr ⟨_, ha, rfl⟩, .fault⟩
    | failure e =>
        -- The second sequence begins with the same failure.
        subst hfirst
        obtain ⟨_, hac, rfl⟩ := hnext
        obtain ⟨_, ha', hagain⟩ := ends_pair.mp hac
        obtain rfl := ha.unique ha'
        subst hagain
        exact ⟨_, ends_pair.mpr ⟨_, ha, rfl⟩, .failure (leavesOnce_twice e)⟩
    | success v stop =>
        obtain ⟨second, hb, rfl⟩ := hfirst
        cases second with
        | success w stop' =>
            subst hnext
            exact ⟨_, ends_pair.mpr ⟨_, ha, _, ends_either.mpr ⟨_, hb, rfl⟩, rfl⟩, .success⟩
        | fault f =>
            subst hnext
            exact ⟨_, ends_pair.mpr ⟨_, ha, _, ends_either.mpr ⟨_, hb, rfl⟩, rfl⟩, .fault⟩
        | failure e =>
            obtain ⟨_, hac, rfl⟩ := hnext
            obtain ⟨_, ha', hagain⟩ := ends_pair.mp hac
            obtain rfl := ha.unique ha'
            obtain ⟨third, hc, rfl⟩ := hagain
            refine ⟨_, ends_pair.mpr ⟨_, ha, _, ends_either.mpr ⟨_, hb, _, hc, rfl⟩, rfl⟩, ?_⟩
            cases third with
            | success w stop' => exact .success
            | fault f => exact .fault
            | failure e' => exact .failure (leavesOnce_exhausted (List.cons_ne_nil _ _))
  back := by
    intro o h
    obtain ⟨first, ha, hnext⟩ := ends_pair.mp h
    cases first with
    | fault f =>
        subst hnext
        exact ⟨_, ends_either.mpr ⟨_, ends_pair.mpr ⟨_, ha, rfl⟩, rfl⟩, .fault⟩
    | failure e =>
        subst hnext
        have hfails : ∀ d, ctx.Ends input active (.sequence [a, d]) pos (.failure e) := fun d =>
          ends_pair.mpr ⟨_, ha, rfl⟩
        exact ⟨_, ends_either.mpr ⟨_, hfails b, _, hfails c, rfl⟩, .failure (leavesOnce_twice e)⟩
    | success v stop =>
        obtain ⟨_, hbc, rfl⟩ := hnext
        obtain ⟨second, hb, hnext⟩ := ends_either.mp hbc
        have hgoes : ∀ d o, ctx.Ends input active d stop o →
            ctx.Ends input active (.sequence [a, d]) pos (o.map fun w => .tuple [v, w]) :=
          fun d o ho => ends_pair.mpr ⟨_, ha, o, ho, rfl⟩
        cases second with
        | success w stop' =>
            subst hnext
            exact ⟨_, ends_either.mpr ⟨_, hgoes b _ hb, rfl⟩, .success⟩
        | fault f =>
            subst hnext
            exact ⟨_, ends_either.mpr ⟨_, hgoes b _ hb, rfl⟩, .fault⟩
        | failure e =>
            obtain ⟨third, hc, rfl⟩ := hnext
            refine ⟨_, ends_either.mpr ⟨_, hgoes b _ hb, _, hgoes c _ hc, rfl⟩, ?_⟩
            cases third with
            | success w stop' => exact .success
            | fault f => exact .fault
            | failure e' => exact .failure (leavesOnce_exhausted (List.cons_ne_nil _ _))

/-- Matching what two alternatives begin with before the choice between them. -/
theorem exchanges_factored :
    ctx.Exchanges (fun e e' => e.furthest = e'.furthest)
      (.choice [.sequence [a, b], .sequence [a, c]]) (.sequence [a, .choice [b, c]]) :=
  exchanges_of_ends fun _ _ _ => corresponds_factored.imp fun o o' ho ho' hsame =>
    hsame.imp fun e e' he he' hleaves => by
      have hordered : e.IsOrdered := (he ▸ ho).isOrdered
      have hordered' : e'.IsOrdered := (he' ▸ ho').isOrdered
      rcases hleaves with hleaves | hleaves
      · exact ParseError.furthest_eq_of_leaves hordered hordered' hleaves
      · exact ParseError.furthest_eq_of_leaves_twice hordered hordered' hleaves

/-! ### Two exclusions -/

/-- What is forbidden and matches is complained of, if it can be described. -/
theorem guard_of_success (ctx : Context α) {forbidden : Node α} (h : forbidden.IsSound) (pos : Int)
    (v w : Value α) (stop stop' : Int) :
    ∃ e, ctx.guard forbidden pos v stop (.success w stop') = .failure e := by
  obtain ⟨t, ht⟩ := h.describe ctx.bindings.isBound Node.usualDepth
  exact ⟨_, by rw [Context.guard, ht]; rfl⟩

/-- Whichever node is complained of, the same becomes of the match. -/
theorem guard_equalUpTo (ctx : Context α) {m n : Node α} (hm : m.IsSound) (hn : n.IsSound)
    (pos : Int) (complain : ParseError α → ParseError α) (v : Value α) (stop : Int) (o : Match α) :
    Outcome.EqualUpTo (fun _ _ => True) (ctx.guard m pos v stop o)
      (ctx.guard n pos v stop (o.mapError complain)) := by
  cases o with
  | fault φ => exact .fault
  | failure e => exact .success
  | success w stop' =>
      obtain ⟨e, he⟩ := guard_of_success ctx hm pos v w stop stop'
      obtain ⟨e', he'⟩ := guard_of_success ctx hn pos v w stop stop'
      rw [Outcome.mapError, he, he']
      exact .failure trivial

/-- Neither exclusion looks at `g` where `f` matches. -/
theorem corresponds_excluded (hf : f.IsSound) (hg : g.IsSound) :
    Corresponds (Outcome.EqualUpTo fun _ _ => True)
      (ctx.Ends input active (.exclusion (.exclusion a f) g) pos)
      (ctx.Ends input active (.exclusion a (.choice [f, g])) pos) := by
  have hfg : (Node.choice [f, g]).IsSound := Node.isSound_of_pair trivial rfl hf hg
  constructor
  case forth =>
    intro o h
    obtain ⟨_, haf, hnext⟩ := ends_exclusion.mp h
    obtain ⟨first, ha, hfirst⟩ := ends_exclusion.mp haf
    cases first with
    | fault φ =>
        subst hfirst hnext
        exact ⟨_, ends_exclusion.mpr ⟨_, ha, rfl⟩, .fault⟩
    | failure e =>
        subst hfirst hnext
        exact ⟨_, ends_exclusion.mpr ⟨_, ha, rfl⟩, .failure trivial⟩
    | success v stop =>
        obtain ⟨barred, hbarred, rfl⟩ := hfirst
        have hgoes : ∀ o, ctx.Ends input active (.choice [f, g]) pos o →
            ctx.Ends input active (.exclusion a (.choice [f, g])) pos
              (ctx.guard (.choice [f, g]) pos v stop o) :=
          fun o ho => ends_exclusion.mpr ⟨_, ha, o, ho, rfl⟩
        cases barred with
        | fault φ =>
            subst hnext
            exact ⟨_, hgoes _ (ends_either.mpr ⟨_, hbarred, rfl⟩), .fault⟩
        | success w stop' =>
            obtain ⟨e, he⟩ := guard_of_success ctx hf pos v w stop stop'
            have hsame := guard_equalUpTo ctx hf hfg pos id v stop (.success w stop')
            rw [he] at hnext hsame
            subst hnext
            exact ⟨_, hgoes _ (ends_either.mpr ⟨_, hbarred, rfl⟩), hsame⟩
        | failure e =>
            obtain ⟨second, hsecond, rfl⟩ := hnext
            exact ⟨_, hgoes _ (ends_either.mpr ⟨_, hbarred, _, hsecond, rfl⟩),
              guard_equalUpTo ctx hg hfg pos _ v stop second⟩
  case back =>
    intro o h
    obtain ⟨first, ha, hnext⟩ := ends_exclusion.mp h
    cases first with
    | fault φ =>
        subst hnext
        exact ⟨_, ends_exclusion.mpr ⟨_, ends_exclusion.mpr ⟨_, ha, rfl⟩, rfl⟩, .fault⟩
    | failure e =>
        subst hnext
        exact ⟨_, ends_exclusion.mpr ⟨_, ends_exclusion.mpr ⟨_, ha, rfl⟩, rfl⟩, .failure trivial⟩
    | success v stop =>
        obtain ⟨_, hchoice, rfl⟩ := hnext
        obtain ⟨barred, hbarred, hnext⟩ := ends_either.mp hchoice
        have hgoes : ctx.Ends input active (.exclusion a f) pos (ctx.guard f pos v stop barred) :=
          ends_exclusion.mpr ⟨_, ha, barred, hbarred, rfl⟩
        cases barred with
        | fault φ =>
            subst hnext
            exact ⟨_, ends_exclusion.mpr ⟨_, hgoes, rfl⟩, .fault⟩
        | success w stop' =>
            subst hnext
            obtain ⟨e, he⟩ := guard_of_success ctx hf pos v w stop stop'
            have hsame := guard_equalUpTo ctx hf hfg pos id v stop (.success w stop')
            rw [he] at hgoes hsame
            exact ⟨_, ends_exclusion.mpr ⟨_, hgoes, rfl⟩, hsame⟩
        | failure e =>
            obtain ⟨second, hsecond, rfl⟩ := hnext
            exact ⟨_, ends_exclusion.mpr ⟨_, hgoes, second, hsecond, rfl⟩,
              guard_equalUpTo ctx hg hfg pos _ v stop second⟩

end Laws

/-- Three ways to write a grammar in another way. A choice among the alternatives of a choice
is spliced, what two alternatives begin with is matched before the choice, and two exclusions
become one. Attempts have the same answers, the first two up to errors with the same furthest
error, and the third up to errors. -/
theorem refactored_exchanges (ctx : Context α) :
    (∀ before inner after : List (Node α), inner ≠ [] →
      ctx.Exchanges (fun e e' => e.furthest = e'.furthest)
        (.choice (before ++ .choice inner :: after)) (.choice (before ++ inner ++ after))) ∧
    (∀ a b c : Node α, ctx.Exchanges (fun e e' => e.furthest = e'.furthest)
      (.choice [.sequence [a, b], .sequence [a, c]]) (.sequence [a, .choice [b, c]])) ∧
    ∀ a f g : Node α, f.IsSound → g.IsSound → ctx.Exchanges (fun _ _ => True)
      (.exclusion (.exclusion a f) g) (.exclusion a (.choice [f, g])) :=
  ⟨fun _ _ _ hinner => exchanges_spliced hinner, fun _ _ _ => exchanges_factored,
    fun _ _ _ hf hg => exchanges_of_ends fun _ _ _ => corresponds_excluded hf hg⟩

namespace Months

/-- The months from `01` to `09`, and those from `10` to `12` one by one. -/
def early : Node Action := .sequence [.literal "0", .range 49 57]

def late (digit : Text) : Node Action := .sequence [.literal "1", .literal digit]

theorem isQuiet (node : Node Action) : context.IsQuiet node := fun _ act => nomatch act

theorem isSound_literal (t : Text) : (Node.literal t : Node Action).IsSound :=
  Node.isSound_of_parts trivial nofun

/-- There is no month `13`, in whichever way the grammar is written. -/
theorem refactored_exchanges_thirteen :
    [late "0", late "1"] ≠ [] ∧ (Node.literal "0" : Node Action).IsSound ∧
      (Node.literal "1" : Node Action).IsSound ∧
      (∃ e, context.Answers (.choice ([early] ++ [late "0", late "1"] ++ [late "2"])) "13" 0
        (.ok (.failed e)) ∧ e.furthest = missing "0" "3" 1) ∧
      (∃ e, context.Answers (.sequence [.literal "1", .choice [.literal "0", .literal "1"]])
        "13" 0 (.ok (.failed e)) ∧ e.furthest = missing "0" "3" 1) ∧
      ∃ e, context.Answers (.exclusion (.range 48 57) (.choice [.literal "0", .literal "1"]))
        "1" 0 (.ok (.failed e)) := by
  obtain ⟨hspliced, hfactored, hexcluded⟩ := refactored_exchanges context
  refine ⟨List.cons_ne_nil _ _, isSound_literal "0", isSound_literal "1", ?_, ?_, ?_⟩
  · have hnested : context.Answers
        (.choice ([early] ++ .choice [late "0", late "1"] :: [late "2"])) "13" 0
        (.ok (.failed (.exhausted [missing "0" "1" 0,
          .exhausted [missing "0" "3" 1, missing "1" "3" 1] 0 [], missing "2" "3" 1] 0 []))) :=
      answers_of_isQuiet 8 (isQuiet _) rfl nofun
    obtain ⟨_, hr, hsame⟩ := (hspliced _ _ _ (List.cons_ne_nil _ _) "13" 0).forth _ hnested
    cases hsame with
    | failed hfurthest => exact ⟨_, hr, hfurthest.symm⟩
  · have htwice : context.Answers (.choice [late "0", late "1"]) "13" 0
        (.ok (.failed (.exhausted [missing "0" "3" 1, missing "1" "3" 1] 0 []))) :=
      answers_of_isQuiet 8 (isQuiet _) rfl nofun
    obtain ⟨_, hr, hsame⟩ := (hfactored _ _ _ "13" 0).forth _ htwice
    cases hsame with
    | failed hfurthest => exact ⟨_, hr, hfurthest.symm⟩
  · have htwice : context.Answers
        (.exclusion (.exclusion (.range 48 57) (.literal "0")) (.literal "1")) "1" 0
        (.ok (.failed (.leaf (.excluded "Literal('1')") 0 []))) :=
      answers_of_isQuiet 8 (isQuiet _) rfl nofun
    obtain ⟨_, hr, hsame⟩ :=
      (hexcluded _ _ _ (isSound_literal "0") (isSound_literal "1") "1" 0).forth _ htwice
    cases hsame with
    | failed => exact ⟨_, hr⟩

end Months

end Peg
