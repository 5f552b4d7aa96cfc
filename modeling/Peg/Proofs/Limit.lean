import Peg.Proofs.Simulation

/-!
# More levels change no answer

A match that ended above the limit ends in the same way under a higher one. The limit
is only looked at where a match would go below it, and whoever starts a match hands the
fault of the limit on: a choice tries no further alternative, a loop does not stop
quietly, and an action is not performed. So two runs under different limits agree step
by step until the smaller limit is met: `matchNode_related_succ` compares them, and the
first one is excused where it ends at its limit.

An action that starts a parse of its own is the exception. A parse inside an action
that nests too deeply is refused, and a refusal is a failure like any other. The
theorem therefore asks for actions that start no parse.
-/

namespace Peg

variable {α ε β : Type}

namespace Outcome

/-- The second outcome is the first, unless the first ended at the limit. -/
def Extends (o o' : Outcome ε β) : Prop := o ≠ fault .tooDeep → o' = o

/-- The second outcome is the first where the comparison does not excuse it. -/
theorem Related.extends {o o' : Outcome ε β}
    (h : o.Related (· = ·) (· = ·) (· = ·) (· = .tooDeep) o') : o.Extends o' := by
  intro hne
  cases h with
  | success hstop => rw [hstop]
  | failure he => rw [he]
  | fault hf => rw [hf]
  | excused hf => exact absurd (by rw [hf]) hne

end Outcome

/-! ## Whole matches -/

/-- No action that a match of the node may come to starts a parse of its own. -/
def Context.IsQuiet (ctx : Context α) (node : Node α) : Prop :=
  ∀ item act, ctx.bindings.Reaches node (.action item act) →
    ∀ v inner t, ctx.perform act v ≠ .parse inner t

theorem Context.IsQuiet.of_reaches {ctx : Context α} {node n : Node α} (h : ctx.IsQuiet node)
    (hn : ctx.bindings.Reaches node n) : ctx.IsQuiet n :=
  fun item act hreach => h item act (hn.trans hreach)

variable [Named α]

theorem finish_of_quiet {ctx : Context α} {item : Node α} {act : α} {v : Value α}
    {pos stop : Int} (h : ctx.IsQuiet (.action item act)) (limit limit' : Nat) :
    ctx.finish limit act v pos stop = ctx.finish limit' act v pos stop := by
  unfold Context.finish
  cases hp : ctx.perform act v with
  | value w => rfl
  | raised r => rfl
  | parse inner t => exact absurd hp (h item act .refl v inner t)

/-- Two matches under different limits go the same way until the first meets its own. -/
theorem matchNode_related_of_le (ctx : Context α) (input : Input) {limit limit' : Nat}
    (hle : limit ≤ limit') : ∀ (active : Active) (node : Node α) (pos : Int),
      ctx.IsQuiet node →
      (matchNode ctx limit input active node pos).Related (· = ·) (· = ·) (· = ·) (· = .tooDeep)
        (matchNode ctx limit' input active node pos) := by
  have hrefl : ∀ o : Match α, o.Related (· = ·) (· = ·) (· = ·) (· = .tooDeep) o :=
    Outcome.Related.refl (fun _ => rfl) (fun _ => rfl) fun _ => rfl
  induction limit generalizing limit' with
  | zero => intro active node pos _; exact .excused rfl
  | succ limit ih =>
      intro active node pos hquiet
      obtain ⟨limit', rfl⟩ : ∃ k, limit' = k + 1 := ⟨limit' - 1, by omega⟩
      refine matchNode_related_succ rfl rfl ?moved ?exhausted (fun e e' label he => by rw [he])
        ?excluded ?leaf ?part ?placeholder ?act
      case moved =>
        rintro p p' q q' rfl rfl
        exact Iff.rfl
      case exhausted =>
        intro es es' hes
        rw [List.forall₂_eq_eq_eq] at hes
        rw [hes]
      case excluded => exact fun item forbidden _ => hrefl _
      case leaf =>
        intro hleaf
        cases node <;> first | exact hrefl _ | exact hleaf.elim
      case part =>
        rintro n hn p p' rfl
        exact ih (by omega) active n p (hquiet.of_reaches (Bindings.Reaches.refl.part hn))
      case placeholder =>
        rintro id name rfl
        refine matchNode_placeholder_related (fun _ ht => ht) Iff.rfl (fun ht => ?_) (hrefl _)
          fun target ht => ?_
        · rw [matchNode_unbound ht]
          exact hrefl _
        · exact ih (by omega) _ target pos (hquiet.of_reaches (Bindings.Reaches.refl.target ht))
      case act =>
        rintro item act v stop stop' rfl rfl
        rw [finish_of_quiet hquiet limit limit']
        exact hrefl _

/-- A match that ended above the limit ends in the same way under any higher limit. -/
theorem matchNode_extends (ctx : Context α) (input : Input) {limit limit' : Nat}
    (hle : limit ≤ limit') (active : Active) (node : Node α) (pos : Int)
    (hquiet : ctx.IsQuiet node) : (matchNode ctx limit input active node pos).Extends
      (matchNode ctx limit' input active node pos) :=
  (matchNode_related_of_le ctx input hle active node pos hquiet).extends

end Peg
