import Peg.Builder
import Peg.Proofs.Reading

/-!
# Rules of reading

What a grammar reads is worked out rule by rule. There are two sets of rules. Those of
`Matches` go from a reading that matched to the readings of its parts, and do not say
how many levels it took. Those of `Reads` go the other way, from readings of the parts
to a reading of the whole, and count levels: a reading that takes no more than so many
is there for every limit from that number on.

So what a grammar accepts is bounded from above with the first set, whatever the limit
may be, and from below with the second, at a limit that is known.
-/

namespace Peg

variable {α : Type}

namespace Context

/-! ## From a match to its parts -/

/-- The node matches `s` and leaves `rest`, if there are levels enough. -/
def Matches (ctx : Context α) (node : Node α) (s : Text) (v : Value α) (rest : Text) : Prop :=
  ∃ limit, readNode ctx limit node s = .matched v rest

/-- The nodes match one after the other. -/
def MatchesAll (ctx : Context α) : List (Node α) → Text → List (Value α) → Text → Prop
  | [], s, vs, rest => vs = [] ∧ rest = s
  | n :: ns, s, vs, rest =>
    ∃ v mid ws, vs = v :: ws ∧ ctx.Matches n s v mid ∧ ctx.MatchesAll ns mid ws rest

/-- The node matches as often as there are values. -/
def MatchesMany (ctx : Context α) (item : Node α) : Text → List (Value α) → Text → Prop
  | s, [], rest => rest = s
  | s, v :: vs, rest => ∃ mid, ctx.Matches item s v mid ∧ ctx.MatchesMany item mid vs rest

section Matches

variable {ctx : Context α} {s rest : Text} {v : Value α}

theorem Matches.of_read {limit : Nat} {node : Node α}
    (h : readNode ctx limit node s = .matched v rest) : ctx.Matches node s v rest :=
  ⟨limit, h⟩

/-- A match takes a level, so there is a reading with one level more than another. -/
theorem Matches.exists_succ {node : Node α} (h : ctx.Matches node s v rest) :
    ∃ limit, readNode ctx (limit + 1) node s = .matched v rest := by
  obtain ⟨limit, h⟩ := h
  cases limit with
  | zero => cases h
  | succ limit => exact ⟨limit, h⟩

theorem Matches.length_le {n : Node α} (h : ctx.Matches n s v rest) :
    rest.length ≤ s.length := by
  obtain ⟨limit, h⟩ := h
  exact (readNode_suffix h).length_le

/-- After a match that takes nothing off, the text is the same. -/
theorem Matches.eq_or_lt {n : Node α}
    (h : ctx.Matches n s v rest) : rest = s ∨ rest.length < s.length := by
  obtain ⟨limit, h⟩ := h
  have hsuffix := readNode_suffix h
  rcases Nat.lt_or_ge rest.length s.length with hlt | hge
  · exact .inr hlt
  · exact .inl (hsuffix.eq_of_length_le hge)

theorem Matches.literal {t : Text} (h : ctx.Matches (.literal t) s v rest) :
    v = .text t ∧ s = t ++ rest := by
  obtain ⟨limit, h⟩ := h.exists_succ
  rw [readNode_literal, readLiteral] at h
  split at h
  · next hprefix =>
      cases h
      obtain ⟨u, rfl⟩ := hprefix
      simp
  · cases h

theorem Matches.range {low high : Int} (h : ctx.Matches (.range low high) s v rest) :
    ∃ c, s = c :: rest ∧ v = .text [c] ∧ low ≤ c.val ∧ c.val ≤ high := by
  obtain ⟨limit, h⟩ := h.exists_succ
  rw [readNode_range] at h
  cases s with
  | nil => cases h
  | cons c cs =>
      rw [readRange] at h
      split at h
      · next hc => cases h; exact ⟨c, rfl, rfl, hc⟩
      · cases h

theorem matchesAll_of_read {limit : Nat} {items : List (Node α)} {vs : List (Value α)}
    (h : readAll (readNode ctx limit) items s = .matched vs rest) :
    ctx.MatchesAll items s vs rest := by
  induction items generalizing s vs with
  | nil => cases h; exact ⟨rfl, rfl⟩
  | cons n ns ih =>
      obtain ⟨v, mid, hv, hvs⟩ := Reading.andThen_eq_matched.mp h
      obtain ⟨ws, hws, rfl⟩ := Reading.map_eq_matched.mp hvs
      exact ⟨v, mid, ws, rfl, ⟨limit, hv⟩, ih hws⟩

theorem Matches.sequence {items : List (Node α)} (h : ctx.Matches (.sequence items) s v rest) :
    ∃ vs, v = .tuple vs ∧ ctx.MatchesAll items s vs rest := by
  obtain ⟨limit, h⟩ := h.exists_succ
  rw [readNode_sequence] at h
  obtain ⟨vs, hvs, rfl⟩ := Reading.map_eq_matched.mp h
  exact ⟨vs, rfl, matchesAll_of_read hvs⟩

theorem Matches.choice {alternatives : List (Node α)}
    (h : ctx.Matches (.choice alternatives) s v rest) :
    ∃ n ∈ alternatives, ctx.Matches n s v rest := by
  obtain ⟨limit, h⟩ := h.exists_succ
  rw [readNode_choice] at h
  obtain ⟨before, n, after, rfl, -, hn⟩ := readFirst_matched h
  exact ⟨n, by simp, limit, hn⟩

theorem matchesMany_of_read {limit room : Nat} {item : Node α} {vs : List (Value α)}
    (h : readMany (readNode ctx limit item) room s = .matched vs rest) :
    ctx.MatchesMany item s vs rest := by
  induction room generalizing s vs with
  | zero => cases h; rfl
  | succ room ih =>
      rw [readMany] at h
      cases hs : readNode ctx limit item s with
      | mismatch => rw [hs] at h; cases h; rfl
      | stuck => rw [hs] at h; cases h
      | matched v mid =>
          rw [hs] at h
          simp only [] at h
          split at h
          · cases h; rfl
          · obtain ⟨ws, hws, rfl⟩ := Reading.map_eq_matched.mp h
            exact ⟨mid, ⟨limit, hs⟩, ih hws⟩

theorem Matches.many {item : Node α} (h : ctx.Matches (.many item) s v rest) :
    ∃ vs, v = .list vs ∧ ctx.MatchesMany item s vs rest := by
  obtain ⟨limit, h⟩ := h.exists_succ
  rw [readNode_many] at h
  obtain ⟨vs, hvs, rfl⟩ := Reading.map_eq_matched.mp h
  exact ⟨vs, rfl, matchesMany_of_read hvs⟩

/-- What an exclusion matches, its forbidden node does not. -/
theorem Matches.exclusion {item forbidden : Node α}
    (h : ctx.Matches (.exclusion item forbidden) s v rest) :
    ctx.Matches item s v rest ∧ ∃ limit, readNode ctx limit forbidden s = .mismatch := by
  obtain ⟨limit, h⟩ := h.exists_succ
  rw [readNode_exclusion] at h
  obtain ⟨w, mid, hw, h⟩ := Reading.andThen_eq_matched.mp h
  cases hf : readNode ctx limit forbidden s with
  | matched _ _ | stuck => rw [hf] at h; cases h
  | mismatch => rw [hf] at h; cases h; exact ⟨⟨limit, hw⟩, limit, hf⟩

theorem Matches.capture {label : Value α} {item : Node α}
    (h : ctx.Matches (.capture label item) s v rest) :
    ∃ w, v = .captured label w ∧ ctx.Matches item s w rest := by
  obtain ⟨limit, h⟩ := h.exists_succ
  rw [readNode_capture] at h
  obtain ⟨w, hw, rfl⟩ := Reading.map_eq_matched.mp h
  exact ⟨w, rfl, limit, hw⟩

theorem Matches.placeholder {id : Nat} {name : Value α} {target : Node α}
    (h : ctx.Matches (.placeholder id name) s v rest)
    (ht : ctx.bindings.target? id = some target) : ctx.Matches target s v rest := by
  obtain ⟨limit, h⟩ := h.exists_succ
  rw [readNode_placeholder, ht] at h
  exact ⟨limit, h⟩

theorem Matches.action {item : Node α} {act : α} (h : ctx.Matches (.action item act) s v rest) :
    ∃ w, ctx.Matches item s w rest ∧ ctx.perform act w = .value v := by
  obtain ⟨limit, h⟩ := h.exists_succ
  rw [readNode_action] at h
  obtain ⟨w, mid, hw, h⟩ := Reading.andThen_eq_matched.mp h
  cases hp : ctx.perform act w with
  | value u => rw [hp] at h; cases h; exact ⟨w, ⟨limit, hw⟩, hp⟩
  | parse inner t => rw [hp] at h; cases h
  | raised r =>
      rw [hp, ActionResult.reading] at h
      split at h <;> cases h

theorem Matches.empty {shared : Bool} (h : ctx.Matches (.empty shared) s v rest) :
    v = .null ∧ rest = s := by
  obtain ⟨limit, h⟩ := h.exists_succ
  cases h
  exact ⟨rfl, rfl⟩

theorem Matches.optional {item : Node α} (h : ctx.Matches item.optional s v rest) :
    ctx.Matches item s v rest ∨ v = .null ∧ rest = s := by
  obtain ⟨n, hn, hmatch⟩ := h.choice
  rcases (by simpa [Node.nothing] using hn : n = item ∨ n = .empty true) with rfl | rfl
  · exact .inl hmatch
  · exact .inr hmatch.empty

theorem Matches.literals {texts : List Text} (h : ctx.Matches (.literals texts) s v rest) :
    ∃ t ∈ texts, v = .text t ∧ s = t ++ rest := by
  obtain ⟨n, hn, h⟩ := h.choice
  obtain ⟨t, ht, rfl⟩ := List.mem_map.mp hn
  exact ⟨t, ht, h.literal⟩

end Matches

/-! ## From the parts to the whole -/

/-- With `levels` levels or more the node reads `r` from `s`. -/
def Reads (ctx : Context α) (levels : Nat) (node : Node α) (s : Text) (r : Reading (Value α)) :
    Prop :=
  ∀ limit ≥ levels, readNode ctx limit node s = r

/-- With `levels` levels or more the nodes, one after the other, read `r`. -/
def ReadsAll (ctx : Context α) (levels : Nat) (items : List (Node α)) (s : Text)
    (r : Reading (List (Value α))) : Prop :=
  ∀ limit ≥ levels, readAll (readNode ctx limit) items s = r

/-- With `levels` levels or more the repeated node reads `vs` and leaves `rest`. -/
def ReadsMany (ctx : Context α) (levels : Nat) (item : Node α) (s : Text)
    (vs : List (Value α)) (rest : Text) : Prop :=
  ∀ limit ≥ levels, ∀ room > s.length,
    readMany (readNode ctx limit item) room s = .matched vs rest

section Reads

variable {ctx : Context α} {levels levels' : Nat} {s mid rest : Text} {v w : Value α}
  {vs : List (Value α)} {r : Reading (Value α)} {n item : Node α} {ns : List (Node α)}

theorem Reads.mono (h : ctx.Reads levels n s r) (hle : levels ≤ levels') :
    ctx.Reads levels' n s r :=
  fun limit hlimit => h limit (by omega)

theorem ReadsAll.mono {r : Reading (List (Value α))} (h : ctx.ReadsAll levels ns s r)
    (hle : levels ≤ levels') : ctx.ReadsAll levels' ns s r :=
  fun limit hlimit => h limit (by omega)

theorem ReadsMany.mono (h : ctx.ReadsMany levels item s vs rest) (hle : levels ≤ levels') :
    ctx.ReadsMany levels' item s vs rest :=
  fun limit hlimit => h limit (by omega)

theorem Reads.unique {r' : Reading (Value α)} (h : ctx.Reads levels n s r)
    (h' : ctx.Reads levels' n s r') : r = r' := by
  rw [← h (max levels levels') (by omega), h' (max levels levels') (by omega)]

theorem Reads.matches (h : ctx.Reads levels n s (.matched v rest)) :
    ctx.Matches n s v rest :=
  ⟨levels, h levels (Nat.le_refl _)⟩

theorem Reads.ne_mismatch {limit : Nat} (h : ctx.Reads levels n s (.matched v rest)) :
    readNode ctx limit n s ≠ .mismatch := by
  intro hmiss
  have hmore := readNode_mismatch_mono (Nat.le_max_left limit levels) hmiss
  rw [h _ (Nat.le_max_right limit levels)] at hmore
  cases hmore

/-- A node reads what it reads from one level below. -/
theorem Reads.succ (h : ∀ limit ≥ levels, readNode ctx (limit + 1) n s = r) :
    ctx.Reads (levels + 1) n s r := by
  intro limit hle
  obtain ⟨limit, rfl⟩ : ∃ k, limit = k + 1 := ⟨limit - 1, by omega⟩
  exact h limit (by omega)

theorem Reads.literal_at {t : Text} (h : t <+: s) :
    ctx.Reads 1 (.literal t) s (.matched (.text t) (s.drop t.length)) := by
  refine .succ fun limit _ => ?_
  rw [readNode_literal, readLiteral, if_pos h]

theorem Reads.literal (t s : Text) :
    ctx.Reads 1 (.literal t) (t ++ s) (.matched (.text t) s) := by
  have h : ctx.Reads 1 (.literal t) (t ++ s) (.matched (.text t) ((t ++ s).drop t.length)) :=
    .literal_at (List.prefix_append t s)
  rwa [List.drop_left] at h

theorem Reads.literal_mismatch {t : Text} (h : ¬ t <+: s) :
    ctx.Reads 1 (.literal t) s .mismatch := by
  refine .succ fun limit _ => ?_
  rw [readNode_literal, readLiteral, if_neg h]

theorem Reads.range_mismatch {low high : Int}
    (h : ∀ c, s.head? = some c → ¬ (low ≤ c.val ∧ c.val ≤ high)) :
    ctx.Reads 1 (.range low high) s .mismatch := by
  refine .succ fun limit _ => ?_
  rw [readNode_range]
  cases s with
  | nil => rfl
  | cons c cs => rw [readRange, if_neg (h c rfl)]

theorem Reads.range {low high : Int} {c : CodePoint} (hlow : low ≤ c.val)
    (hhigh : c.val ≤ high) :
    ctx.Reads 1 (.range low high) (c :: s) (.matched (.text [c]) s) := by
  refine .succ fun limit _ => ?_
  rw [readNode_range, readRange, if_pos ⟨hlow, hhigh⟩]

theorem ReadsAll.nil : ctx.ReadsAll 0 [] s (.matched [] s) := fun _ _ => rfl

theorem ReadsAll.cons (hn : ctx.Reads levels n s (.matched v mid))
    (hns : ctx.ReadsAll levels ns mid (.matched vs rest)) :
    ctx.ReadsAll levels (n :: ns) s (.matched (v :: vs) rest) := by
  intro limit hle
  rw [readAll, hn limit hle, Reading.andThen, hns limit hle, Reading.map]

theorem ReadsAll.here (hn : ctx.Reads levels n s .mismatch) :
    ctx.ReadsAll levels (n :: ns) s .mismatch := by
  intro limit hle
  rw [readAll, hn limit hle, Reading.andThen]

theorem ReadsAll.later (hn : ctx.Reads levels n s (.matched v mid))
    (hns : ctx.ReadsAll levels ns mid .mismatch) :
    ctx.ReadsAll levels (n :: ns) s .mismatch := by
  intro limit hle
  rw [readAll, hn limit hle, Reading.andThen, hns limit hle, Reading.map]

theorem ReadsAll.append {before after : List (Node α)} {r : Reading (List (Value α))}
    (hbefore : ctx.ReadsAll levels before s (.matched vs mid))
    (hafter : ctx.ReadsAll levels after mid r) :
    ctx.ReadsAll levels (before ++ after) s (r.map (vs ++ ·)) := by
  intro limit hle
  rw [readAll_append (hbefore limit hle), hafter limit hle]

theorem Reads.sequence (h : ctx.ReadsAll levels ns s (.matched vs rest)) :
    ctx.Reads (levels + 1) (.sequence ns) s (.matched (.tuple vs) rest) := by
  refine .succ fun limit hle => ?_
  rw [readNode_sequence, h limit hle, Reading.map]

theorem Reads.sequence_mismatch (h : ctx.ReadsAll levels ns s .mismatch) :
    ctx.Reads (levels + 1) (.sequence ns) s .mismatch := by
  refine .succ fun limit hle => ?_
  rw [readNode_sequence, h limit hle, Reading.map]

theorem Reads.first (h : ctx.Reads levels n s (.matched v rest)) :
    ctx.Reads (levels + 1) (.choice (n :: ns)) s (.matched v rest) := by
  refine .succ fun limit hle => ?_
  rw [readNode_choice, readFirst, h limit hle]

theorem Reads.next (hn : ctx.Reads levels n s .mismatch)
    (hns : ctx.Reads (levels + 1) (.choice ns) s r) :
    ctx.Reads (levels + 1) (.choice (n :: ns)) s r := by
  refine .succ fun limit hle => ?_
  have hrest := hns (limit + 1) (by omega)
  rw [readNode_choice] at hrest
  rw [readNode_choice, readFirst, hn limit hle]
  exact hrest

theorem Reads.choice_nil : ctx.Reads 1 (.choice []) s .mismatch :=
  .succ fun _ _ => by rw [readNode_choice, readFirst]

/-- A choice takes the alternative after those that fail. -/
theorem Reads.choice {before after : List (Node α)}
    (hbefore : ∀ m ∈ before, ctx.Reads levels m s .mismatch)
    (hn : ctx.Reads levels n s (.matched v rest)) :
    ctx.Reads (levels + 1) (.choice (before ++ n :: after)) s (.matched v rest) := by
  induction before with
  | nil => exact .first hn
  | cons m ms ih =>
      exact .next (hbefore m (by simp)) (ih fun a ha => hbefore a (by simp [ha]))

theorem Reads.choice_mismatch (h : ∀ m ∈ ns, ctx.Reads levels m s .mismatch) :
    ctx.Reads (levels + 1) (.choice ns) s .mismatch := by
  induction ns with
  | nil => exact .mono .choice_nil (by omega)
  | cons m ms ih => exact .next (h m (by simp)) (ih fun a ha => h a (by simp [ha]))

/-- Finitely many readings are there at one number of levels. -/
theorem exists_reads (h : ∀ n ∈ ns, ∃ levels, ctx.Reads levels n s r) :
    ∃ levels, ∀ n ∈ ns, ctx.Reads levels n s r := by
  induction ns with
  | nil => exact ⟨0, by simp⟩
  | cons n ns ih =>
      obtain ⟨k, hk⟩ := h n (by simp)
      obtain ⟨l, hl⟩ := ih fun m hm => h m (by simp [hm])
      refine ⟨max k l, fun m hm => ?_⟩
      rcases List.mem_cons.mp hm with rfl | hm
      · exact hk.mono (by omega)
      · exact (hl m hm).mono (by omega)

theorem ReadsMany.stop (h : ctx.Reads levels item s .mismatch) :
    ctx.ReadsMany levels item s [] s := by
  intro limit hle room hroom
  obtain ⟨room, rfl⟩ : ∃ k, room = k + 1 := ⟨room - 1, by omega⟩
  rw [readMany, h limit hle]

theorem ReadsMany.rests (h : ctx.Reads levels item s (.matched v s)) :
    ctx.ReadsMany levels item s [] s := by
  intro limit hle room hroom
  obtain ⟨room, rfl⟩ : ∃ k, room = k + 1 := ⟨room - 1, by omega⟩
  rw [readMany, h limit hle]
  exact if_pos rfl

theorem ReadsMany.step (h : ctx.Reads levels item s (.matched v mid))
    (hlt : mid.length < s.length) (hvs : ctx.ReadsMany levels item mid vs rest) :
    ctx.ReadsMany levels item s (v :: vs) rest := by
  intro limit hle room hroom
  obtain ⟨room, rfl⟩ : ∃ k, room = k + 1 := ⟨room - 1, by omega⟩
  rw [readMany, h limit hle]
  simp only [if_neg (Nat.ne_of_lt hlt)]
  rw [hvs limit hle room (by omega), Reading.map]

theorem Reads.many (h : ctx.ReadsMany levels item s vs rest) :
    ctx.Reads (levels + 1) (.many item) s (.matched (.list vs) rest) := by
  refine .succ fun limit hle => ?_
  rw [readNode_many, h limit hle _ (by omega), Reading.map]

theorem Reads.exclusion {forbidden : Node α} (hitem : ctx.Reads levels item s (.matched v rest))
    (hforbidden : ctx.Reads levels forbidden s .mismatch) :
    ctx.Reads (levels + 1) (.exclusion item forbidden) s (.matched v rest) := by
  refine .succ fun limit hle => ?_
  rw [readNode_exclusion, hitem limit hle, Reading.andThen, hforbidden limit hle]

theorem Reads.exclusion_item {forbidden : Node α} (hitem : ctx.Reads levels item s .mismatch) :
    ctx.Reads (levels + 1) (.exclusion item forbidden) s .mismatch := by
  refine .succ fun limit hle => ?_
  rw [readNode_exclusion, hitem limit hle, Reading.andThen]

theorem Reads.exclusion_forbidden {forbidden : Node α}
    (hitem : ctx.Reads levels item s (.matched v rest))
    (hforbidden : ctx.Reads levels forbidden s (.matched w mid)) :
    ctx.Reads (levels + 1) (.exclusion item forbidden) s .mismatch := by
  refine .succ fun limit hle => ?_
  rw [readNode_exclusion, hitem limit hle, Reading.andThen, hforbidden limit hle]

theorem Reads.capture {label : Value α} (h : ctx.Reads levels item s (.matched v rest)) :
    ctx.Reads (levels + 1) (.capture label item) s (.matched (.captured label v) rest) := by
  refine .succ fun limit hle => ?_
  rw [readNode_capture, h limit hle, Reading.map]

theorem Reads.capture_mismatch {label : Value α} (h : ctx.Reads levels item s .mismatch) :
    ctx.Reads (levels + 1) (.capture label item) s .mismatch := by
  refine .succ fun limit hle => ?_
  rw [readNode_capture, h limit hle, Reading.map]

theorem Reads.placeholder {id : Nat} {name : Value α} {target : Node α}
    (ht : ctx.bindings.target? id = some target) (h : ctx.Reads levels target s r) :
    ctx.Reads (levels + 1) (.placeholder id name) s r := by
  refine .succ fun limit hle => ?_
  rw [readNode_placeholder, ht]
  exact h limit hle

theorem Reads.action {act : α} (h : ctx.Reads levels item s (.matched v rest)) :
    ctx.Reads (levels + 1) (.action item act) s ((ctx.perform act v).reading rest) := by
  refine .succ fun limit hle => ?_
  rw [readNode_action, h limit hle, Reading.andThen]

theorem Reads.action_value {act : α} (h : ctx.Reads levels item s (.matched v rest))
    (hact : ctx.perform act v = .value w) :
    ctx.Reads (levels + 1) (.action item act) s (.matched w rest) := by
  have haction : ctx.Reads (levels + 1) (.action item act) s
      ((ctx.perform act v).reading rest) := h.action
  rwa [hact, ActionResult.reading] at haction

/-- An action without a value for a result makes its node fail there. -/
theorem Reads.action_refuses {act : α} (h : ctx.Reads levels item s (.matched v rest))
    (hplain : (ctx.perform act v).IsPlain) (hnone : ∀ w, ctx.perform act v ≠ .value w) :
    ctx.Reads (levels + 1) (.action item act) s .mismatch := by
  have haction : ctx.Reads (levels + 1) (.action item act) s
      ((ctx.perform act v).reading rest) := h.action
  cases hp : ctx.perform act v with
  | value w => exact absurd hp (hnone w)
  | parse inner t => rw [hp] at hplain; exact hplain.elim
  | raised r =>
      rw [hp] at hplain haction
      rwa [ActionResult.reading, if_pos (show r.IsPlain from hplain)] at haction

theorem Reads.action_mismatch {act : α} (h : ctx.Reads levels item s .mismatch) :
    ctx.Reads (levels + 1) (.action item act) s .mismatch := by
  refine .succ fun limit hle => ?_
  rw [readNode_action, h limit hle, Reading.andThen]

theorem Reads.empty {shared : Bool} : ctx.Reads 1 (.empty shared) s (.matched .null s) :=
  .succ fun _ _ => by rw [readNode_empty]

theorem Reads.optional (h : ctx.Reads levels item s (.matched v rest)) :
    ctx.Reads (levels + 1) item.optional s (.matched v rest) :=
  .first h

theorem Reads.optional_absent (h : ctx.Reads levels item s .mismatch) (hlevels : 0 < levels) :
    ctx.Reads (levels + 1) item.optional s (.matched .null s) :=
  .next h (.first (Reads.empty.mono hlevels))

end Reads

/-! ## Runs of code points

A repeat whose item matches single code points, such as blanks or digits. -/

section Runs

variable {ctx : Context α} {item : Node α} {P : CodePoint → Prop} {f : CodePoint → Value α}
  {s rest : Text}

theorem MatchesMany.run {vs : List (Value α)}
    (hitem : ∀ s v rest, ctx.Matches item s v rest → ∃ c, s = c :: rest ∧ P c ∧ v = f c)
    (h : ctx.MatchesMany item s vs rest) :
    ∃ t, s = t ++ rest ∧ (∀ c ∈ t, P c) ∧ vs = t.map f := by
  induction vs generalizing s with
  | nil =>
      obtain rfl : rest = s := h
      exact ⟨[], rfl, by simp, rfl⟩
  | cons v vs ih =>
      obtain ⟨mid, hv, hvs⟩ := h
      obtain ⟨c, rfl, hc, rfl⟩ := hitem s v mid hv
      obtain ⟨t, rfl, ht, rfl⟩ := ih hvs
      exact ⟨c :: t, rfl, by simpa [hc] using ht, rfl⟩

theorem ReadsMany.run {levels : Nat} {t : Text}
    (hitem : ∀ c, P c → ∀ s, ctx.Reads levels item (c :: s) (.matched (f c) s))
    (ht : ∀ c ∈ t, P c) (hs : ctx.Reads levels item s .mismatch) :
    ctx.ReadsMany levels item (t ++ s) (t.map f) s := by
  induction t with
  | nil => exact .stop hs
  | cons c t ih =>
      exact .step (hitem c (ht c (by simp)) (t ++ s)) (by simp)
        (ih fun d hd => ht d (by simp [hd]))

end Runs

end Context

end Peg
