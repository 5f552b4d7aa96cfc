import Peg.Proofs.Exhaustion

/-!
# Matches that have room

A match has room when no match of its run meets the limit, whatever nesting of parses it is
inside of. Then the limit has no say in it: under any higher limit the run starts the same
matches, has room again, and ends in the same way. That is `HasRoom.under`, and unlike
`matchNode_extends` it asks nothing of the actions. An action that starts a parse of its own
may come to something else where that parse is refused for its depth, but a run with room
has no such parse.

To have room is more than not to be refused, since a choice goes on where an action failed
for its depth. Where no action starts a parse it is the same.
-/

namespace Peg

variable {α : Type}

/-! ## Loops that try the same

A loop looks at nothing but what it tries. -/

section Loops

variable {pos : Int}

theorem matchAll_congr {step step' : Node α → Int → Match α} {items : List (Node α)}
    (h : ∀ x ∈ triedAll step items pos, step' x.1 x.2 = step x.1 x.2) :
    triedAll step' items pos = triedAll step items pos ∧
      matchAll step' items pos = matchAll step items pos := by
  induction items generalizing pos with
  | nil => exact ⟨rfl, rfl⟩
  | cons n ns ih =>
      rw [triedAll] at h
      have hn : step' n pos = step n pos := h (n, pos) List.mem_cons_self
      rw [triedAll, triedAll, matchAll, matchAll, hn]
      cases hs : step n pos with
      | failure e => exact ⟨rfl, rfl⟩
      | fault f => exact ⟨rfl, rfl⟩
      | success v stop =>
          rw [hs] at h
          obtain ⟨htried, hmatch⟩ := ih fun x hx => h x (List.mem_cons_of_mem _ hx)
          simp only [htried, hmatch, Outcome.andThen, and_self]

theorem matchFirst_congr {step step' : Node α → Match α} {alternatives : List (Node α)}
    (h : ∀ n ∈ triedFirst step alternatives, step' n = step n) :
    triedFirst step' alternatives = triedFirst step alternatives ∧
      matchFirst step' alternatives = matchFirst step alternatives := by
  induction alternatives with
  | nil => exact ⟨rfl, rfl⟩
  | cons n ns ih =>
      rw [triedFirst] at h
      have hn : step' n = step n := h n List.mem_cons_self
      rw [triedFirst, triedFirst, matchFirst, matchFirst, hn]
      cases hs : step n with
      | success v stop => exact ⟨rfl, rfl⟩
      | fault f => exact ⟨rfl, rfl⟩
      | failure e =>
          rw [hs] at h
          obtain ⟨htried, hmatch⟩ := ih fun m hm => h m (List.mem_cons_of_mem _ hm)
          simp only [htried, hmatch, and_self]

theorem matchMany_congr {step step' : Int → Match α} {room : Nat}
    (h : ∀ p ∈ triedMany step room pos, step' p = step p) :
    triedMany step' room pos = triedMany step room pos ∧
      matchMany step' room pos = matchMany step room pos := by
  induction room generalizing pos with
  | zero => exact ⟨rfl, rfl⟩
  | succ room ih =>
      rw [triedMany] at h
      have hp : step' pos = step pos := h pos List.mem_cons_self
      rw [triedMany, triedMany, matchMany, matchMany, hp]
      cases hs : step pos with
      | failure e => exact ⟨rfl, rfl⟩
      | fault f => exact ⟨rfl, rfl⟩
      | success v stop =>
          rw [hs] at h
          simp only [] at h ⊢
          split
          · exact ⟨rfl, rfl⟩
          · next hne =>
              rw [if_neg hne] at h
              obtain ⟨htried, hmatch⟩ := ih fun p hp => h p (List.mem_cons_of_mem _ hp)
              simp only [htried, hmatch, and_self]

end Loops

namespace Frame

/-- The match with another number of levels to go. -/
def under (f : Frame α) (limit : Nat) : Frame α := { f with limit := limit }

variable [Named α]

/-- No level is left for the match, or for the parse that its action starts. -/
inductive MeetsLimit (ctx : Context α) (f : Frame α) : Prop
  | limit : f.limit = 0 → MeetsLimit ctx f
  | noLevel {act v stop inner text} : f.Performs ctx 0 act v stop →
    ctx.perform act v = .parse inner text → MeetsLimit ctx f

/-- No match of the run meets the limit. -/
def HasRoom (ctx : Context α) (f : Frame α) : Prop := ∀ g, f.Runs ctx g → ¬ g.MeetsLimit ctx

variable {ctx : Context α} {f g : Frame α} {limit : Nat}

/-! ## One level -/

theorem hasRoom_iff : f.HasRoom ctx ↔ ¬ f.MeetsLimit ctx ∧
    (∀ g, f.Starts ctx g → g.HasRoom ctx) ∧ ∀ g, f.StartsInside ctx g → g.HasRoom ctx := by
  constructor
  · exact fun h => ⟨h f .refl, fun g hg k hk => h k (hg.runs.trans hk),
      fun g hg k hk => h k (hg.runs.trans hk)⟩
  · rintro ⟨hself, hstarts, hinside⟩ k hk
    rcases Relation.ReflTransGen.cases_head hk with rfl | ⟨g, hg | hg, hrest⟩
    · exact hself
    · exact hstarts g hg k hrest
    · exact hinside g hg k hrest

theorem HasRoom.started (h : f.HasRoom ctx) (hg : f.Starts ctx g) : g.HasRoom ctx :=
  (hasRoom_iff.mp h).2.1 g hg

theorem HasRoom.exists_limit_eq (h : f.HasRoom ctx) : ∃ limit, f.limit = limit + 1 :=
  Nat.exists_eq_succ_of_ne_zero fun hzero => h f .refl (.limit hzero)

/-- A node without an action starts no parse. -/
theorem hasRoom_of_started {input : Input} {active : Active} {node : Node α} {pos : Int}
    (hnode : ∀ item act, node ≠ .action item act)
    (h : ∀ g, Starts ctx ⟨limit + 1, input, active, node, pos⟩ g → g.HasRoom ctx) :
    HasRoom ctx ⟨limit + 1, input, active, node, pos⟩ := by
  have hperforms : ∀ {levels act v stop},
      ¬ Performs ctx ⟨limit + 1, input, active, node, pos⟩ levels act v stop := fun hact => by
    obtain ⟨item, hitem⟩ := hact.node_eq
    exact hnode item _ hitem
  refine hasRoom_iff.mpr ⟨?_, h, ?_⟩
  · rintro (hzero | ⟨hact, -⟩)
    · cases hzero
    · exact hperforms hact
  · rintro g ⟨hact, -⟩
    exact (hperforms hact).elim

/-! ## Another number of levels

What is below a match under another limit, if the matches that it starts end as before. -/

section Levels

variable {limit' : Nat} {input : Input} {active : Active} {node : Node α} {pos : Int}

theorem matchAll_under {items : List (Node α)}
    (h : ∀ g, Starts ctx ⟨limit + 1, input, active, .sequence items, pos⟩ g →
      (g.under limit').outcome ctx = g.outcome ctx) :
    triedAll (matchNode ctx limit' input active) items pos =
        triedAll (matchNode ctx limit input active) items pos ∧
      matchAll (matchNode ctx limit' input active) items pos =
        matchAll (matchNode ctx limit input active) items pos :=
  matchAll_congr fun _ hx => h _ (.item hx)

theorem matchFirst_under {alternatives : List (Node α)}
    (h : ∀ g, Starts ctx ⟨limit + 1, input, active, .choice alternatives, pos⟩ g →
      (g.under limit').outcome ctx = g.outcome ctx) :
    triedFirst (matchNode ctx limit' input active · pos) alternatives =
        triedFirst (matchNode ctx limit input active · pos) alternatives ∧
      matchFirst (matchNode ctx limit' input active · pos) alternatives =
        matchFirst (matchNode ctx limit input active · pos) alternatives :=
  matchFirst_congr fun _ hn => h _ (.alternative hn)

theorem matchMany_under {item : Node α}
    (h : ∀ g, Starts ctx ⟨limit + 1, input, active, .many item, pos⟩ g →
      (g.under limit').outcome ctx = g.outcome ctx) :
    triedMany (matchNode ctx limit' input active item) (input.room pos) pos =
        triedMany (matchNode ctx limit input active item) (input.room pos) pos ∧
      matchMany (matchNode ctx limit' input active item) (input.room pos) pos =
        matchMany (matchNode ctx limit input active item) (input.room pos) pos :=
  matchMany_congr fun _ hp => h _ (.round hp)

theorem starts_under
    (h : ∀ g, Starts ctx ⟨limit + 1, input, active, node, pos⟩ g →
      (g.under limit').outcome ctx = g.outcome ctx)
    (hg : Starts ctx ⟨limit' + 1, input, active, node, pos⟩ g) :
    Starts ctx ⟨limit + 1, input, active, node, pos⟩ (g.under limit) := by
  cases hg with
  | item hn =>
      rw [(matchAll_under h).1] at hn
      exact .item hn
  | alternative hn =>
      rw [(matchFirst_under h).1] at hn
      exact .alternative hn
  | round hp =>
      rw [(matchMany_under h).1] at hp
      exact .round hp
  | forbidden hitem => exact .forbidden ((h _ .base).symm.trans hitem)
  | base => exact .base
  | captured => exact .captured
  | argument => exact .argument
  | target ht hactive => exact .target ht hactive

theorem performs_under
    (h : ∀ g, Starts ctx ⟨limit + 1, input, active, node, pos⟩ g →
      (g.under limit').outcome ctx = g.outcome ctx)
    {levels : Nat} {act : α} {v : Value α} {stop : Int}
    (hact : Performs ctx ⟨limit' + 1, input, active, node, pos⟩ levels act v stop) :
    levels = limit' ∧ Performs ctx ⟨limit + 1, input, active, node, pos⟩ limit act v stop := by
  cases hact with
  | intro hitem => exact ⟨rfl, .intro ((h _ .argument).symm.trans hitem)⟩

theorem outcome_under
    (h : ∀ g, Starts ctx ⟨limit + 1, input, active, node, pos⟩ g →
      (g.under limit').outcome ctx = g.outcome ctx)
    (hact : ∀ {act v stop}, Performs ctx ⟨limit + 1, input, active, node, pos⟩ limit act v stop →
      ctx.finish limit' act v pos stop = ctx.finish limit act v pos stop) :
    matchNode ctx (limit' + 1) input active node pos =
      matchNode ctx (limit + 1) input active node pos := by
  cases node with
  | sequence items =>
      rw [matchNode_sequence, matchNode_sequence, (matchAll_under h).2]
  | choice alternatives =>
      rw [matchNode_choice, matchNode_choice, (matchFirst_under h).2]
  | many item =>
      rw [matchNode_many, matchNode_many, (matchMany_under h).2]
  | exclusion item forbidden =>
      have hitem : matchNode ctx limit' input active item pos = _ := h _ .base
      rw [matchNode_exclusion, matchNode_exclusion, hitem, outcome]
      cases hs : matchNode ctx limit input active item pos with
      | failure e => rfl
      | fault f => rfl
      | success v stop =>
          have hforbidden : matchNode ctx limit' input active forbidden pos = _ :=
            h _ (.forbidden hs)
          simp only [Outcome.andThen, hforbidden]
          rfl
  | capture label item =>
      have hitem : matchNode ctx limit' input active item pos = _ := h _ .captured
      rw [matchNode_capture, matchNode_capture, hitem]
      rfl
  | action item act =>
      have hitem : matchNode ctx limit' input active item pos = _ := h _ .argument
      rw [matchNode_action, matchNode_action, hitem, outcome]
      cases hs : matchNode ctx limit input active item pos with
      | failure e => rfl
      | fault f => rfl
      | success v stop => exact hact (.intro hs)
  | placeholder id name =>
      cases ht : ctx.bindings.target? id with
      | none => rw [matchNode_unbound ht, matchNode_unbound ht]
      | some target =>
          by_cases hactive : (id, pos) ∈ active
          · rw [matchNode_reentered ht hactive, matchNode_reentered ht hactive]
          · rw [matchNode_entered ht hactive, matchNode_entered ht hactive]
            exact h _ (.target ht hactive)
  | literal _ | range _ _ | empty _ | bare | stray _ | looseLiteral _ | looseRange _ _ => rfl

end Levels

/-- An action whose parse has room comes to the same with more levels. -/
theorem finish_under {act : α} {v : Value α} {pos stop : Int} {levels levels' : Nat}
    (hlevel : ∀ {inner text}, ctx.perform act v = .parse inner text →
      ∃ k k', levels = k + 1 ∧ levels' = k' + 1 ∧
        ((top k inner text 0).under k').outcome ctx = (top k inner text 0).outcome ctx) :
    ctx.finish levels' act v pos stop = ctx.finish levels act v pos stop := by
  unfold Context.finish
  cases hp : ctx.perform act v with
  | value w => rfl
  | raised r => rfl
  | parse inner text =>
      obtain ⟨k, k', rfl, rfl, heq⟩ := hlevel hp
      have hinside : parseInside ctx (k' + 1) inner text = parseInside ctx (k + 1) inner text := by
        rw [parseInside, parseInside]
        exact congrArg (fun o => o.toAttempt text 0 >>= fun a => a.complete text) heq
      simp only [hinside]

/-- A match with room has room under every higher limit, and ends there in the same way. -/
theorem HasRoom.under {limit' : Nat} (h : f.HasRoom ctx) (hle : f.limit ≤ limit') :
    (f.under limit').HasRoom ctx ∧ (f.under limit').outcome ctx = f.outcome ctx := by
  induction hlimit : f.limit using Nat.strong_induction_on generalizing f limit' with
  | h levels ih =>
      obtain ⟨limit, hsucc⟩ := h.exists_limit_eq
      obtain ⟨limit', rfl⟩ : ∃ k, limit' = k + 1 := ⟨limit' - 1, by omega⟩
      obtain ⟨_, input, active, node, pos⟩ := f
      obtain rfl : _ = limit + 1 := hsucc
      simp only [] at hle hlimit
      obtain ⟨hmeets, hstarted, hinside⟩ := hasRoom_iff.mp h
      -- The induction hypothesis, for what is started below and for the parses of actions.
      have hbelow : ∀ g, Starts ctx ⟨limit + 1, input, active, node, pos⟩ g →
          (g.under limit').HasRoom ctx ∧ (g.under limit').outcome ctx = g.outcome ctx := by
        intro g hg
        have hone : limit + 1 = g.limit + 1 := hg.limit_eq
        exact ih g.limit (by omega) (hstarted g hg) (by omega) rfl
      have hinner : ∀ {act v stop inner text},
          Performs ctx ⟨limit + 1, input, active, node, pos⟩ limit act v stop →
          ctx.perform act v = .parse inner text →
          ∃ k k', limit = k + 1 ∧ limit' = k' + 1 ∧ ((top k inner text 0).under k').HasRoom ctx ∧
            ((top k inner text 0).under k').outcome ctx = (top k inner text 0).outcome ctx := by
        intro act v stop inner text hact hp
        obtain ⟨k, rfl⟩ : ∃ k, limit = k + 1 := by
          refine Nat.exists_eq_succ_of_ne_zero ?_
          rintro rfl
          exact hmeets (.noLevel hact hp)
        obtain ⟨k', rfl⟩ : ∃ k', limit' = k' + 1 := ⟨limit' - 1, by omega⟩
        have hroom := hinside _ (.intro hact hp)
        have hk : (top k inner text 0).limit = k := rfl
        exact ⟨k, k', rfl, rfl, ih k (by omega) hroom (by omega) rfl⟩
      have hsame := fun g hg => (hbelow g hg).2
      refine ⟨hasRoom_iff.mpr ⟨?_, ?_, ?_⟩, outcome_under hsame fun hact => ?_⟩
      · rintro (hzero | ⟨hact, hp⟩)
        · cases hzero
        · obtain ⟨hzero, hact⟩ := performs_under hsame hact
          obtain ⟨k, k', -, hk', -⟩ := hinner hact hp
          omega
      · intro g hg
        have hone : limit' + 1 = g.limit + 1 := hg.limit_eq
        obtain rfl : limit' = g.limit := by omega
        exact (hbelow _ (starts_under hsame hg)).1
      · rintro _ ⟨hact, hp⟩
        obtain ⟨hlevels, hact⟩ := performs_under hsame hact
        obtain ⟨k, k', -, hk', hroom, -⟩ := hinner hact hp
        obtain rfl := Nat.succ.inj (hlevels.trans hk')
        exact hroom
      · refine finish_under fun hp => ?_
        obtain ⟨k, k', hk, hk', -, heq⟩ := hinner hact hp
        exact ⟨k, k', hk, hk', heq⟩

/-! ## Actions that start no parse -/

theorem MeetsLimit.endsStack (h : f.MeetsLimit ctx) : f.EndsStack ctx := by
  cases h with
  | limit hzero => exact .limit hzero
  | noLevel hact hp => exact .noLevel hact hp

theorem Runs.visits (h : f.Runs ctx g) (hquiet : ctx.IsQuiet f.node) : f.Visits ctx g := by
  induction h with
  | refl => exact .refl
  | tail _ hstart ih =>
      rcases hstart with hstart | ⟨hact, hp⟩
      · exact ih.tail hstart
      · obtain ⟨item, hitem⟩ := hact.node_eq
        have hreach := ih.reaches
        rw [hitem] at hreach
        exact absurd hp (hquiet item _ hreach _ _ _)

/-- Where no action starts a parse, a match that is not refused has room. -/
theorem hasRoom_of_isQuiet (hquiet : ctx.IsQuiet f.node) (h : f.outcome ctx ≠ .fault .tooDeep) :
    f.HasRoom ctx := fun g hruns hmeets =>
  h (outcome_tooDeep_iff.mpr ⟨g, hruns.visits hquiet, hmeets.endsStack⟩)

end Frame

end Peg
