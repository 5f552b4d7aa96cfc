import Peg.Proofs.Graph
import Peg.Proofs.Rules
import Peg.Proofs.Runs

/-!
# What the next code point decides

Often the first code point of a text tells that a node fails on it, or that it matches
and takes nothing off. `refuses` and `passes` work this out from the tree of a node, as
far as they can without looking into placeholders or performing actions, and `none`
stands for the end of the text. They err only towards "no".

A grammar is read forwards with their help: an alternative that refuses the next code
point is skipped, a repeat whose item refuses it is over, and an optional part that
refuses it is absent.
-/

namespace Peg

variable {α : Type}

namespace Node

mutual

/-- The node fails on every text that begins so. -/
def refuses (head : Option CodePoint) : Node α → Bool
  | .literal [] => false
  | .literal (c :: _) => decide (head ≠ some c)
  | .range low high =>
    match head with
    | none => true
    | some c => decide (¬ (low ≤ c.val ∧ c.val ≤ high))
  | .sequence items => refusesSome head items
  | .choice alternatives => refusesEach head alternatives
  | .exclusion item _ | .capture _ item | .action item _ => item.refuses head
  | _ => false

/-- The nodes pass up to one that refuses. -/
def refusesSome (head : Option CodePoint) : List (Node α) → Bool
  | [] => false
  | n :: ns => n.refuses head || n.passes head && refusesSome head ns

def refusesEach (head : Option CodePoint) : List (Node α) → Bool
  | [] => true
  | n :: ns => n.refuses head && refusesEach head ns

/-- The node matches every text that begins so, and takes nothing off it. -/
def passes (head : Option CodePoint) : Node α → Bool
  | .literal t => t.isEmpty
  | .sequence items => passesAll head items
  | .choice alternatives => passesFirst head alternatives
  | .many item => item.refuses head || item.passes head
  | .capture _ item => item.passes head
  | .empty _ => true
  | _ => false

def passesAll (head : Option CodePoint) : List (Node α) → Bool
  | [] => true
  | n :: ns => n.passes head && passesAll head ns

/-- The nodes refuse up to one that passes. -/
def passesFirst (head : Option CodePoint) : List (Node α) → Bool
  | [] => false
  | n :: ns => n.passes head || n.refuses head && passesFirst head ns

end

end Node

theorem not_prefix_of_head {c : CodePoint} {cs s : Text} (h : s.head? ≠ some c) :
    ¬ (c :: cs) <+: s := by
  rintro ⟨u, rfl⟩
  exact h rfl

namespace Context

variable {ctx : Context α} {s : Text}

mutual

theorem Reads.of_refuses {n : Node α} (h : n.refuses s.head? = true) :
    ctx.Reads n.height n s .mismatch := by
  match n with
  | .literal [] => simp [Node.refuses] at h
  | .literal (c :: cs) =>
      have hhead : s.head? ≠ some c := by simpa [Node.refuses] using h
      exact .literal_mismatch (not_prefix_of_head hhead)
  | .range low high =>
      refine .range_mismatch fun c hc => ?_
      rw [hc, Node.refuses] at h
      exact of_decide_eq_true h
  | .sequence items =>
      rw [Node.refuses] at h
      rw [Node.height]
      exact .sequence_mismatch (readsAll_of_refuses h)
  | .choice alternatives =>
      rw [Node.refuses] at h
      rw [Node.height]
      exact choice_of_refuses h
  | .exclusion item forbidden =>
      rw [Node.refuses] at h
      rw [Node.height]
      exact .exclusion_item ((Reads.of_refuses h).mono (by omega))
  | .capture label item =>
      rw [Node.refuses] at h
      rw [Node.height]
      exact .capture_mismatch (.of_refuses h)
  | .action item act =>
      rw [Node.refuses] at h
      rw [Node.height]
      exact .action_mismatch (.of_refuses h)
  | .many _ | .placeholder .. | .empty _ | .bare | .stray _ | .looseLiteral _
  | .looseRange .. =>
      simp [Node.refuses] at h
termination_by sizeOf n

theorem readsAll_of_refuses {ns : List (Node α)} (h : Node.refusesSome s.head? ns = true) :
    ctx.ReadsAll (Node.heightAll ns) ns s .mismatch := by
  match ns with
  | [] => simp [Node.refusesSome] at h
  | n :: ns =>
      rw [Node.refusesSome, Bool.or_eq_true, Bool.and_eq_true] at h
      rw [Node.heightAll]
      rcases h with hn | ⟨hn, htail⟩
      · exact .here ((Reads.of_refuses hn).mono (by omega))
      · obtain ⟨v, hv⟩ := Reads.of_passes hn
        exact .later (hv.mono (by omega)) ((readsAll_of_refuses htail).mono (by omega))
termination_by sizeOf ns

theorem choice_of_refuses {ns : List (Node α)} (h : Node.refusesEach s.head? ns = true) :
    ctx.Reads (Node.heightAll ns + 1) (.choice ns) s .mismatch := by
  match ns with
  | [] => exact .choice_nil
  | n :: ns =>
      rw [Node.refusesEach, Bool.and_eq_true] at h
      rw [Node.heightAll]
      exact .next ((Reads.of_refuses h.1).mono (by omega))
        ((choice_of_refuses h.2).mono (by omega))
termination_by sizeOf ns

theorem Reads.of_passes {n : Node α} (h : n.passes s.head? = true) :
    ∃ v, ctx.Reads n.height n s (.matched v s) := by
  match n with
  | .literal t =>
      obtain rfl : t = [] := by simpa [Node.passes] using h
      exact ⟨_, .literal [] s⟩
  | .sequence items =>
      rw [Node.passes] at h
      rw [Node.height]
      obtain ⟨vs, hvs⟩ := readsAll_of_passes h
      exact ⟨_, .sequence hvs⟩
  | .choice alternatives =>
      rw [Node.passes] at h
      rw [Node.height]
      exact choice_of_passes h
  | .many item =>
      rw [Node.passes, Bool.or_eq_true] at h
      rw [Node.height]
      rcases h with h | h
      · exact ⟨_, .many (.stop (.of_refuses h))⟩
      · obtain ⟨v, hv⟩ := Reads.of_passes h
        exact ⟨_, .many (.rests hv)⟩
  | .capture label item =>
      rw [Node.passes] at h
      rw [Node.height]
      obtain ⟨v, hv⟩ := Reads.of_passes h
      exact ⟨_, .capture hv⟩
  | .empty shared => exact ⟨_, .empty⟩
  | .range .. | .exclusion .. | .action .. | .placeholder .. | .bare | .stray _
  | .looseLiteral _ | .looseRange .. =>
      simp [Node.passes] at h
termination_by sizeOf n

theorem readsAll_of_passes {ns : List (Node α)} (h : Node.passesAll s.head? ns = true) :
    ∃ vs, ctx.ReadsAll (Node.heightAll ns) ns s (.matched vs s) := by
  match ns with
  | [] => exact ⟨_, .nil⟩
  | n :: ns =>
      rw [Node.passesAll, Bool.and_eq_true] at h
      rw [Node.heightAll]
      obtain ⟨v, hv⟩ := Reads.of_passes h.1
      obtain ⟨vs, hvs⟩ := readsAll_of_passes h.2
      exact ⟨_, .cons (hv.mono (by omega)) (hvs.mono (by omega))⟩
termination_by sizeOf ns

theorem choice_of_passes {ns : List (Node α)} (h : Node.passesFirst s.head? ns = true) :
    ∃ v, ctx.Reads (Node.heightAll ns + 1) (.choice ns) s (.matched v s) := by
  match ns with
  | [] => simp [Node.passesFirst] at h
  | n :: ns =>
      rw [Node.passesFirst, Bool.or_eq_true, Bool.and_eq_true] at h
      rw [Node.heightAll]
      rcases h with hn | ⟨hn, htail⟩
      · obtain ⟨v, hv⟩ := Reads.of_passes hn
        exact ⟨v, .first (hv.mono (by omega))⟩
      · obtain ⟨v, hv⟩ := choice_of_passes htail
        exact ⟨v, .next ((Reads.of_refuses hn).mono (by omega)) (hv.mono (by omega))⟩
termination_by sizeOf ns

end

end Context

/-! ## Choices between code points -/

/-- One of the code points, each of which is an alternative on its own. -/
def Node.oneOf (cs : List CodePoint) : Node α := .literals (cs.map ([·]))

namespace Context

variable {ctx : Context α} {cs : List CodePoint} {s rest : Text} {c : CodePoint} {v : Value α}

theorem Matches.oneOf (h : ctx.Matches (.oneOf cs) s v rest) :
    ∃ c, s = c :: rest ∧ c ∈ cs ∧ v = .text [c] := by
  obtain ⟨t, ht, rfl, rfl⟩ := h.literals
  obtain ⟨c, hc, rfl⟩ := List.mem_map.mp ht
  exact ⟨c, rfl, hc, rfl⟩

theorem Reads.oneOf (h : c ∈ cs) :
    ctx.Reads 2 (.oneOf cs) (c :: s) (.matched (.text [c]) s) := by
  rw [Node.oneOf, Node.literals]
  induction cs with
  | nil => cases h
  | cons d ds ih =>
      by_cases hdc : d = c
      · subst hdc
        exact .first (.literal [d] s)
      · have hhead : (c :: s).head? ≠ some d := fun h => hdc (Option.some.inj h).symm
        exact .next (.literal_mismatch (not_prefix_of_head hhead))
          (ih ((List.mem_cons.mp h).resolve_left (Ne.symm hdc)))

theorem Reads.oneOf_mismatch (h : EndsRun (· ∈ cs) s) :
    ctx.Reads 2 (.oneOf cs) s .mismatch := by
  refine .choice_mismatch fun m hm => ?_
  obtain ⟨t, ht, rfl⟩ := List.mem_map.mp hm
  obtain ⟨c, hc, rfl⟩ := List.mem_map.mp ht
  exact .literal_mismatch (not_prefix_of_head fun hhead => h c hhead hc)

theorem Matches.run_oneOf (h : ctx.Matches (.many (.oneOf cs)) s v rest) :
    ∃ t, s = t ++ rest ∧ IsRun (· ∈ cs) t := by
  obtain ⟨vs, -, hvs⟩ := h.many
  have hitem : ∀ s v rest, ctx.Matches (.oneOf cs) s v rest →
      ∃ c, s = c :: rest ∧ c ∈ cs ∧ v = .text [c] := fun _ _ _ h => h.oneOf
  obtain ⟨t, hs, ht, -⟩ := hvs.run hitem
  exact ⟨t, hs, ht⟩

/-- A run of the code points is read up to where another one comes. -/
theorem Reads.run_oneOf {t : Text} (ht : IsRun (· ∈ cs) t) (hs : EndsRun (· ∈ cs) s) :
    ∃ v, ctx.Reads 3 (.many (.oneOf cs)) (t ++ s) (.matched v s) :=
  ⟨_, .many (.run (fun _ hc _ => .oneOf hc) ht (.oneOf_mismatch hs))⟩

end Context

end Peg
