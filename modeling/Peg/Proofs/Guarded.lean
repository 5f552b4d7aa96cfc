import Peg.Grammar
import Peg.Proofs.Derivation

/-!
# Grammars without left recursion

Left recursion can be ruled out by looking at the trees of a grammar. Suppose that the
placeholders have ranks, and that what can be entered from a target before anything is
taken off the text has a smaller rank than the target's own placeholder. Then a reading
has an answer on every text: whatever is entered at the same place has a smaller rank,
and whatever is entered further on has less of the text before it.

`Consumes` says which nodes certainly take something off the text, and errs only
towards "no". `Guarded` looks at a tree up to there, so both are computed.
-/

namespace Peg

variable {α : Type}

namespace Node

mutual

/-- A node that takes something off the text whenever it matches, for what its tree
shows. -/
def consumes : Node α → Bool
  | .literal t => !t.isEmpty
  | .range .. => true
  | .sequence items => consumesSome items
  | .choice alternatives => consumesEach alternatives
  | .exclusion item _ | .capture _ item | .action item _ => item.consumes
  | _ => false

def consumesSome : List (Node α) → Bool
  | [] => false
  | n :: ns => n.consumes || consumesSome ns

def consumesEach : List (Node α) → Bool
  | [] => true
  | n :: ns => n.consumes && consumesEach ns

end

mutual

/-- The placeholders that can be entered before anything is taken off the text have
ranks below `bound`. -/
def guarded (rank : Nat → Nat) (bound : Nat) : Node α → Bool
  | .sequence items => guardedAll rank bound items
  | .choice alternatives => guardedEach rank bound alternatives
  | .many item | .capture _ item | .action item _ => item.guarded rank bound
  | .exclusion item forbidden => item.guarded rank bound && forbidden.guarded rank bound
  | .placeholder id _ => decide (rank id < bound)
  | _ => true

def guardedAll (rank : Nat → Nat) (bound : Nat) : List (Node α) → Bool
  | [] => true
  | n :: ns => n.guarded rank bound && (n.consumes || guardedAll rank bound ns)

def guardedEach (rank : Nat → Nat) (bound : Nat) : List (Node α) → Bool
  | [] => true
  | n :: ns => n.guarded rank bound && guardedEach rank bound ns

end

end Node

theorem Node.consumes_of_mem {n : Node α} {ns : List (Node α)}
    (h : Node.consumesEach ns = true) (hn : n ∈ ns) : n.consumes = true := by
  induction ns with
  | nil => cases hn
  | cons m ms ih =>
      rw [Node.consumesEach, Bool.and_eq_true] at h
      rcases List.mem_cons.mp hn with rfl | hn
      · exact h.1
      · exact ih h.2 hn

/-! ## What is consumed -/

namespace Context

variable {ctx : Context α}

theorem MatchesAll.length_le {ns : List (Node α)} {s rest : Text} {vs : List (Value α)}
    (h : ctx.MatchesAll ns s vs rest) : rest.length ≤ s.length := by
  induction ns generalizing s vs with
  | nil => obtain ⟨-, rfl⟩ := h; exact Nat.le_refl _
  | cons n ns ih =>
      obtain ⟨v, mid, ws, -, hn, hns⟩ := h
      exact (ih hns).trans hn.length_le

mutual

theorem Matches.length_lt {n : Node α} {s rest : Text} {v : Value α}
    (h : ctx.Matches n s v rest) (hn : n.consumes = true) : rest.length < s.length := by
  match n with
  | .literal t =>
      obtain ⟨-, rfl⟩ := h.literal
      rw [Node.consumes] at hn
      have hpos : 0 < t.length := List.length_pos_iff.mpr (by simpa using hn)
      rw [List.length_append]
      omega
  | .range low high =>
      obtain ⟨c, rfl, -⟩ := h.range
      simp
  | .sequence items =>
      obtain ⟨vs, -, h⟩ := h.sequence
      rw [Node.consumes] at hn
      exact h.length_lt hn
  | .choice alternatives =>
      obtain ⟨m, hm, h⟩ := h.choice
      rw [Node.consumes] at hn
      exact h.length_lt (Node.consumes_of_mem hn hm)
  | .exclusion item forbidden =>
      rw [Node.consumes] at hn
      exact h.exclusion.1.length_lt hn
  | .capture label item =>
      obtain ⟨w, -, h⟩ := h.capture
      rw [Node.consumes] at hn
      exact h.length_lt hn
  | .action item act =>
      obtain ⟨w, h, -⟩ := h.action
      rw [Node.consumes] at hn
      exact h.length_lt hn
  | .many _ | .placeholder .. | .empty _ | .bare | .stray _ | .looseLiteral _
  | .looseRange .. =>
      simp [Node.consumes] at hn
termination_by sizeOf n

theorem MatchesAll.length_lt {ns : List (Node α)} {s rest : Text} {vs : List (Value α)}
    (h : ctx.MatchesAll ns s vs rest) (hns : Node.consumesSome ns = true) :
    rest.length < s.length := by
  match ns with
  | [] => simp [Node.consumesSome] at hns
  | n :: ns =>
      obtain ⟨v, mid, ws, -, hn, htail⟩ := h
      rw [Node.consumesSome, Bool.or_eq_true] at hns
      rcases hns with hns | hns
      · exact htail.length_le.trans_lt (hn.length_lt hns)
      · exact (htail.length_lt hns).trans_le hn.length_le
termination_by sizeOf ns

end

/-! ## Ranks -/

/-- The ranks show that no placeholder is entered from its own target before something
is taken off the text. -/
structure IsRanked (ctx : Context α) (rank : Nat → Nat) (top : Nat) : Prop where
  le_top : ∀ id, rank id < top
  guarded : ∀ e ∈ ctx.bindings.entries, e.2.guarded rank (rank e.1) = true

end Context

mutual

theorem Node.guarded_top {rank : Nat → Nat} {top : Nat} (h : ∀ id, rank id < top) :
    ∀ n : Node α, n.guarded rank top = true
  | .sequence items => by rw [Node.guarded, Node.guardedAll_top h items]
  | .choice alternatives => by rw [Node.guarded, Node.guardedEach_top h alternatives]
  | .many item | .capture _ item | .action item _ => by
      rw [Node.guarded, Node.guarded_top h item]
  | .exclusion item forbidden => by
      rw [Node.guarded, Node.guarded_top h item, Node.guarded_top h forbidden, Bool.and_self]
  | .placeholder id _ => by simpa [Node.guarded] using h id
  | .literal _ | .range .. | .empty _ | .bare | .stray _ | .looseLiteral _
  | .looseRange .. => rfl

theorem Node.guardedAll_top {rank : Nat → Nat} {top : Nat} (h : ∀ id, rank id < top) :
    ∀ ns : List (Node α), Node.guardedAll rank top ns = true
  | [] => rfl
  | n :: ns => by
      rw [Node.guardedAll, Node.guarded_top h n, Node.guardedAll_top h ns, Bool.or_true,
        Bool.and_self]

theorem Node.guardedEach_top {rank : Nat → Nat} {top : Nat} (h : ∀ id, rank id < top) :
    ∀ ns : List (Node α), Node.guardedEach rank top ns = true
  | [] => rfl
  | n :: ns => by
      rw [Node.guardedEach, Node.guarded_top h n, Node.guardedEach_top h ns, Bool.and_self]

end

/-! ## Readings have answers -/

namespace Context

variable {ctx : Context α} {rank : Nat → Nat} {top : Nat}

/-- With levels enough the node has an answer on the text. -/
def Settles (ctx : Context α) (node : Node α) (s : Text) : Prop :=
  ∃ levels r, r ≠ Reading.stuck ∧ ctx.Reads levels node s r

theorem answer_cases {β : Type} {P : Nat → Reading β → Prop}
    (h : ∃ levels r, r ≠ Reading.stuck ∧ P levels r) :
    (∃ levels v rest, P levels (.matched v rest)) ∨ ∃ levels, P levels .mismatch := by
  obtain ⟨levels, r, hr, h⟩ := h
  cases r with
  | matched v rest => exact .inl ⟨levels, v, rest, h⟩
  | mismatch => exact .inr ⟨levels, h⟩
  | stuck => exact absurd rfl hr

theorem settles_literal (t s : Text) : ctx.Settles (.literal t) s := by
  by_cases ht : t <+: s
  · exact ⟨_, _, by simp, .literal_at ht⟩
  · exact ⟨_, _, by simp, .literal_mismatch ht⟩

theorem settles_range (low high : Int) (s : Text) : ctx.Settles (.range low high) s := by
  by_cases hc : ∃ c cs, s = c :: cs ∧ low ≤ c.val ∧ c.val ≤ high
  · obtain ⟨c, cs, rfl, hlow, hhigh⟩ := hc
    exact ⟨_, _, by simp, .range hlow hhigh⟩
  · refine ⟨_, _, by simp, .range_mismatch fun c hhead hin => hc ?_⟩
    obtain ⟨cs, rfl⟩ := List.head?_eq_some_iff.mp hhead
    exact ⟨c, cs, rfl, hin⟩

variable [Named α]

/-- On a regular grammar no action keeps a reading from its answer. -/
theorem settles_action {item : Node α} {act : α} {s rest : Text} {v : Value α} {levels : Nat}
    (hread : ctx.Reads levels item s (.matched v rest)) (hnode : ctx.IsRegular (.action item act)) :
    ctx.Settles (.action item act) s := by
  refine ⟨_, _, fun hstuck => ?_, .action hread⟩
  have hplain := hnode.plain item act .refl v
  cases hp : ctx.perform act v with
  | value w => rw [hp] at hstuck; cases hstuck
  | parse inner t => rw [hp] at hplain; exact hplain
  | raised e =>
      rw [hp] at hplain hstuck
      rw [ActionResult.reading, if_pos (show e.IsPlain from hplain)] at hstuck
      cases hstuck

mutual

/-- In a grammar with ranks every reading has an answer. -/
theorem IsRanked.settles (hranked : ctx.IsRanked rank top) (node : Node α) (s : Text)
    (bound : Nat) (h : node.guarded rank bound = true) (hnode : ctx.IsRegular node) :
    ctx.Settles node s := by
  match node with
  | .literal t => exact settles_literal t s
  | .range low high => exact settles_range low high s
  | .sequence items =>
      rw [Node.guarded] at h
      rcases answer_cases (hranked.settlesAll items s bound h fun n hn => hnode.part hn) with
        ⟨_, _, _, hread⟩ | ⟨_, hread⟩
      · exact ⟨_, _, by simp, .sequence hread⟩
      · exact ⟨_, _, by simp, .sequence_mismatch hread⟩
  | .choice alternatives =>
      rw [Node.guarded] at h
      exact hranked.settlesEach alternatives s bound h fun n hn => hnode.part hn
  | .many item =>
      rw [Node.guarded] at h
      obtain ⟨levels, vs, rest, hread⟩ :=
        hranked.settlesMany item s bound h (hnode.part (by simp [Node.parts]))
      exact ⟨_, _, by simp, .many hread⟩
  | .exclusion item forbidden =>
      rw [Node.guarded, Bool.and_eq_true] at h
      rcases answer_cases (hranked.settles item s bound h.1 (hnode.part (by simp [Node.parts])))
        with ⟨k, _, _, hk⟩ | ⟨_, hread⟩
      · rcases answer_cases
          (hranked.settles forbidden s bound h.2 (hnode.part (by simp [Node.parts])))
          with ⟨l, _, _, hl⟩ | ⟨l, hl⟩
        · exact ⟨max k l + 1, _, by simp,
            .exclusion_forbidden (hk.mono (by omega)) (hl.mono (by omega))⟩
        · exact ⟨max k l + 1, _, by simp, .exclusion (hk.mono (by omega)) (hl.mono (by omega))⟩
      · exact ⟨_, _, by simp, .exclusion_item hread⟩
  | .capture label item =>
      rw [Node.guarded] at h
      rcases answer_cases (hranked.settles item s bound h (hnode.part (by simp [Node.parts])))
        with ⟨_, _, _, hread⟩ | ⟨_, hread⟩
      · exact ⟨_, _, by simp, .capture hread⟩
      · exact ⟨_, _, by simp, .capture_mismatch hread⟩
  | .action item act =>
      rw [Node.guarded] at h
      rcases answer_cases (hranked.settles item s bound h (hnode.part (by simp [Node.parts])))
        with ⟨_, _, _, hread⟩ | ⟨_, hread⟩
      · exact settles_action hread hnode
      · exact ⟨_, _, by simp, .action_mismatch hread⟩
  | .placeholder id name =>
      have hlt : rank id < bound := by simpa [Node.guarded] using h
      obtain ⟨target, ht⟩ := hnode.exists_target
      obtain ⟨levels, r, hr, hread⟩ := hranked.settles target s (rank id)
        (hranked.guarded _ (Bindings.mem_entries_of_target? ht)) (hnode.target ht)
      exact ⟨_, _, hr, .placeholder ht hread⟩
  | .empty shared => exact ⟨_, _, by simp, .empty⟩
  | .bare | .stray _ | .looseLiteral _ | .looseRange .. => exact (hnode.built _ .refl).elim
termination_by (s.length, bound, sizeOf node, 0)

theorem IsRanked.settlesAll (hranked : ctx.IsRanked rank top) (ns : List (Node α)) (s : Text)
    (bound : Nat) (h : Node.guardedAll rank bound ns = true)
    (hns : ∀ n ∈ ns, ctx.IsRegular n) :
    ∃ levels r, r ≠ Reading.stuck ∧ ctx.ReadsAll levels ns s r := by
  match ns with
  | [] => exact ⟨_, _, by simp, .nil⟩
  | n :: ns =>
      rw [Node.guardedAll, Bool.and_eq_true, Bool.or_eq_true] at h
      rcases answer_cases (hranked.settles n s bound h.1 (hns n (by simp))) with
        ⟨k, v, mid, hk⟩ | ⟨_, hk⟩
      · have htail : ∃ levels r, r ≠ Reading.stuck ∧ ctx.ReadsAll levels ns mid r := by
          rcases hk.matches.eq_or_lt with hmid | hlt
          · -- Nothing was taken off, so the rest of the nodes is guarded as well.
            have hrest := h.2.resolve_left fun hn => by
              have hlt := hk.matches.length_lt hn
              rw [hmid] at hlt
              exact Nat.lt_irrefl _ hlt
            rw [hmid]
            exact hranked.settlesAll ns s bound hrest fun m hm => hns m (by simp [hm])
          · exact hranked.settlesAll ns mid top (Node.guardedAll_top hranked.le_top ns)
              fun m hm => hns m (by simp [hm])
        rcases answer_cases htail with ⟨l, _, _, hl⟩ | ⟨l, hl⟩
        · exact ⟨max k l, _, by simp, .cons (hk.mono (by omega)) (hl.mono (by omega))⟩
        · exact ⟨max k l, _, by simp, .later (hk.mono (by omega)) (hl.mono (by omega))⟩
      · exact ⟨_, _, by simp, .here hk⟩
termination_by (s.length, bound, sizeOf ns, 0)

theorem IsRanked.settlesEach (hranked : ctx.IsRanked rank top) (ns : List (Node α)) (s : Text)
    (bound : Nat) (h : Node.guardedEach rank bound ns = true)
    (hns : ∀ n ∈ ns, ctx.IsRegular n) : ctx.Settles (.choice ns) s := by
  match ns with
  | [] => exact ⟨_, _, by simp, .choice_nil⟩
  | n :: ns =>
      rw [Node.guardedEach, Bool.and_eq_true] at h
      rcases answer_cases (hranked.settles n s bound h.1 (hns n (by simp))) with
        ⟨_, _, _, hk⟩ | ⟨k, hk⟩
      · exact ⟨_, _, by simp, .first hk⟩
      · obtain ⟨l, r, hr, hl⟩ :=
          hranked.settlesEach ns s bound h.2 fun m hm => hns m (by simp [hm])
        exact ⟨max k l + 1, r, hr, .next (hk.mono (by omega)) (hl.mono (by omega))⟩
termination_by (s.length, bound, sizeOf ns, 0)

theorem IsRanked.settlesMany (hranked : ctx.IsRanked rank top) (item : Node α) (s : Text)
    (bound : Nat) (h : item.guarded rank bound = true) (hitem : ctx.IsRegular item) :
    ∃ levels vs rest, ctx.ReadsMany levels item s vs rest := by
  rcases answer_cases (hranked.settles item s bound h hitem) with ⟨k, v, mid, hk⟩ | ⟨_, hk⟩
  · rcases hk.matches.eq_or_lt with rfl | hlt
    · exact ⟨_, _, _, .rests hk⟩
    · obtain ⟨l, vs, rest, hl⟩ :=
        hranked.settlesMany item mid top (Node.guarded_top hranked.le_top item) hitem
      exact ⟨max k l, _, _, .step (hk.mono (by omega)) hlt (hl.mono (by omega))⟩
  · exact ⟨_, _, _, .stop hk⟩
termination_by (s.length, bound, sizeOf item, 1)

end

end Context

/-! ## Parses -/

section Parse

variable [Named α] {ctx : Context α} {limit : Nat} {node : Node α} {text : Text}

theorem parse_of_success {v : Value α} {stop : Int}
    (h : matchNode ctx limit (.ofText text) [] node 0 = .success v stop) :
    stop = text.length ∧ parse ctx limit node text = .ok v ∨
      stop ≠ text.length ∧ ∃ e, parse ctx limit node text = .error (.refused e text) := by
  have hparse : parse ctx limit node text = (Attempt.matched v (stop - 0)).complete text := by
    rw [parse, attempt, h]
    rfl
  rw [hparse, Attempt.complete, Int.sub_zero]
  by_cases hstop : stop = text.length
  · exact .inl ⟨hstop, if_pos hstop⟩
  · exact .inr ⟨hstop, _, if_neg hstop⟩

theorem parse_of_failure {e : ParseError α}
    (h : matchNode ctx limit (.ofText text) [] node 0 = .failure e) :
    parse ctx limit node text = .error (.refused e text) := by
  rw [parse, attempt, h]
  rfl

theorem parse_of_fault {f : Fault}
    (h : matchNode ctx limit (.ofText text) [] node 0 = .fault f) :
    ∃ halt, parse ctx limit node text = .error halt := by
  rw [parse, attempt, h]
  cases f <;> exact ⟨_, rfl⟩

/-- A parse gives the value that is read from the text if nothing is left of it. -/
theorem parse_eq_ok_iff (hnode : ctx.IsRegular node) {v : Value α} :
    parse ctx limit node text = .ok v ↔ readNode ctx limit node text = .matched v [] := by
  have hagrees := matchNode_agrees limit hnode (Nat.zero_le text.length)
  rw [List.drop_zero, Int.natCast_zero] at hagrees
  rcases hagrees with h | ⟨⟨t, q, ho⟩, hstuck⟩
  · cases ho : matchNode ctx limit (.ofText text) [] node 0 with
    | success w stop =>
        rw [ho] at h
        obtain ⟨q, hq, rfl, hr⟩ := h.reading_of_success
        have hend : text.drop q = [] ↔ q = text.length := by
          rw [List.drop_eq_nil_iff]
          omega
        rcases parse_of_success ho with ⟨hstop, hparse⟩ | ⟨hstop, e, hparse⟩
        · simp [hparse, hr, show q = text.length by omega]
        · simp [hparse, hr, hend, show q ≠ text.length by omega]
    | failure e =>
        rw [ho] at h
        simp [parse_of_failure ho, h.reading_of_failure]
    | fault f =>
        obtain ⟨halt, hparse⟩ := parse_of_fault ho
        rw [ho] at h
        simp [hparse, h.reading_of_fault.1]
  · obtain ⟨halt, hparse⟩ := parse_of_fault ho
    simp [hparse, hstuck]

/-- A parse that gives no value refuses the text, if the reading has an answer. -/
theorem parse_refused (hnode : ctx.IsRegular node) (hsettles : ctx.Settles node text)
    (h : ∀ v, parse ctx limit node text ≠ .ok v) :
    ∃ e, parse ctx limit node text = .error (.refused e text) := by
  have hagrees := matchNode_agrees limit hnode (Nat.zero_le text.length)
  rw [List.drop_zero, Int.natCast_zero] at hagrees
  rcases hagrees with hagrees | ⟨⟨t, q, ho⟩, -⟩
  · cases ho : matchNode ctx limit (.ofText text) [] node 0 with
    | success v stop =>
        rcases parse_of_success ho with ⟨-, hparse⟩ | ⟨-, hrefused⟩
        · exact absurd hparse (h v)
        · exact hrefused
    | failure e => exact ⟨e, parse_of_failure ho⟩
    | fault f =>
        rw [ho] at hagrees
        obtain ⟨-, rfl⟩ := hagrees.reading_of_fault
        rw [parse, attempt, ho]
        exact ⟨_, rfl⟩
  · obtain ⟨levels, r, hr, hread⟩ := hsettles
    have hstuck := readNode_stuck (p := 0) (Nat.zero_le _) hnode ho levels
    rw [List.drop_zero, hread levels (Nat.le_refl _)] at hstuck
    exact absurd hstuck hr

namespace Grammar

variable {β : Type} [Named β] {g : Grammar α}

theorem parse_text (g : Grammar α) :
    (g.parse ctx limit (.text text : Value β)).2 =
      (Peg.parse ctx limit g.start text).mapError Error.ofHalt := rfl

theorem parse_eq_ok_iff (hstart : ctx.IsRegular g.start) {v : Value α} :
    (g.parse ctx limit (.text text : Value β)).2 = .ok v ↔
      readNode ctx limit g.start text = .matched v [] := by
  rw [parse_text, ← Peg.parse_eq_ok_iff hstart]
  cases Peg.parse ctx limit g.start text <;> simp [Except.mapError]

theorem parse_refused (hstart : ctx.IsRegular g.start) (hsettles : ctx.Settles g.start text)
    (h : ∀ v, (g.parse ctx limit (.text text : Value β)).2 ≠ .ok v) :
    ∃ e, (g.parse ctx limit (.text text : Value β)).2 = .error (.refused e (some text)) := by
  have hparse : ∀ v, Peg.parse ctx limit g.start text ≠ .ok v := by
    intro v hv
    exact h v (by rw [parse_text, hv]; rfl)
  obtain ⟨e, he⟩ := Peg.parse_refused hstart hsettles hparse
  exact ⟨e, by rw [parse_text, he]; rfl⟩

end Grammar

end Parse

end Peg
