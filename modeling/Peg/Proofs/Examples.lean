import Peg.Proofs.Calculator.Evaluation
import Peg.Proofs.Json.Totality

/-!
# The example grammars cannot go wrong

Both example grammars are regular and have no left recursion, so any rule of either
answers on any text and from any position in it, unless it nests too deeply. The grammar
of JSON is total besides: whatever is tried on the way, no action of it raises an error.
The calculator is not, since it divides.
-/

namespace Peg

/-- An attempt at a rule of an example matches or fails, or is refused as nested too
deeply. In the grammar of JSON every action that is performed gives a value, and no
failure has an error of an action in it. -/
theorem example_rules_answer (text : Text) (pos : Nat) (hpos : pos ≤ text.length)
    (limit : Nat) :
    (∀ r : Json.Rule,
      ((∃ a, attempt Json.context limit (r.node id) text pos = .ok a) ∨
        attempt Json.context limit (r.node id) text pos = nestedTooDeep text pos) ∧
      (∀ g levels act v stop, (Frame.top limit (r.node id) text pos).Visits Json.context g →
        g.Performs Json.context levels act v stop →
        ∃ w, Json.context.perform act v = .value w) ∧
      ∀ e, attempt Json.context limit (r.node id) text pos = .ok (.failed e) →
        ∀ e' ∈ e.tree, e'.kind ≠ .transform) ∧
    ∀ r : Calculator.Rule,
      (∃ a, attempt Calculator.context limit (r.node id) text pos = .ok a) ∨
        attempt Calculator.context limit (r.node id) text pos = nestedTooDeep text pos := by
  refine ⟨fun r => ⟨?answers, ?returns, ?failures⟩, fun r => ?calculator⟩
  case answers =>
    exact attempt_answers (Json.isRegular_rule r) (Json.settles_rule r _) hpos limit
  case returns =>
    exact fun g levels act v stop =>
      returns_of_isTotal (Json.isRegular_rule r) (Json.isTotal_rule r) hpos
  case failures =>
    exact fun e => no_transform_of_isTotal (Json.isRegular_rule r) (Json.isTotal_rule r) hpos
  case calculator =>
    exact attempt_answers (Calculator.isRegular_rule r) (Calculator.settles_rule r _) hpos limit

/-- An array that is not closed is refused, and no action has a part in it. -/
theorem example_rules_answer_open_array :
    (1 : Nat) ≤ (" [1" : Text).length ∧
      ∃ e, attempt Json.context 20 Json.arrayRef " [1" (1 : Nat) = .ok (.failed e) ∧
        ∀ e' ∈ e.tree, e'.kind ≠ .transform := by
  have hanswers := ((example_rules_answer " [1" 1 (by decide) 20).1 .arrayRef).2.2
  refine ⟨by decide, _, rfl, hanswers _ rfl⟩

end Peg
