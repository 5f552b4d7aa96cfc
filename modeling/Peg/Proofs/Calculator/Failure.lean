import Peg.Proofs.Calculator.Evaluation
import Peg.Proofs.Calculator.Partial
import Peg.Proofs.FailurePath

/-!
# Evaluations that fail

An expression whose evaluation fails is never given a value, but how it is refused depends
on what the grammar makes of it. Where the operators of a chain fail, their error is the
error of the evaluation. It is so for every operator along the chain, whatever follows it.
An error further inside stays in the matches that failed with it: if a part of the
expression could be read, the rest is left unconsumed, and if not, the choice of the first
factor is exhausted.
-/

namespace Peg.Calculator

open Context

/-! ## The error of a chain -/

section Path

variable {limit depth levels : Nat} {l : Level} {ks : List Token} {e : Expr} {w s rest : Text}
  {error : ParseError Action}

theorem perform_chain_raises {x : Number} {links : List (Operator × Number)}
    {err : ArithmeticError} (h : arithmetic.chain x links = .error err) :
    context.perform .chain (.tuple [Action.ofNumber x,
      .list (links.map (linkValue Action.ofNumber))]) = .raised err.raised := by
  show Action.perform .chain _ = _
  rw [Action.perform, denote?_chain, h]
  rfl

/-- A chain that fails raises the error of its operators, or has the error of its first
operand. -/
theorem chain_failure (hlevels : 5 ≤ levels)
    (hoperand : Takes context arithmetic Action.ofNumber depth levels l.operand (IsOperand l)
      l.inside l.below)
    (h : IsChain l ks e) (hdepth : e.nesting ≤ depth) (hw : AreBlanks w) (ht : Tight ks s rest)
    (hrest : Follows l.followers rest)
    (hpath : FailsThrough context limit exprRef (w ++ s) 0 error l.node 0) :
    (∃ err, e.part arithmetic = .raises err ∧
      error = .leaf (.transform err.kind err.message) 0 []) ∨
    ∃ ks' a rest', IsOperand l ks' a ∧ a.nesting ≤ depth ∧ Tight ks' s rest' ∧
      Follows l.inside rest' ∧ e.part arithmetic = a.part arithmetic ∧
      (∀ x, a.part arithmetic ≠ .read x) ∧
      FailsThrough context limit exprRef (w ++ s) 0 error l.operand 0 := by
  rcases computes_arithmetic.reads_chain_items hlevels hoperand h hdepth hw ht hrest with
    ⟨x, links, mid, hitems, hpart, -⟩ | ⟨ks', a, rest', ha, hle, hta, hfollows, hpart, hnot, hmiss⟩
  · left
    cases hchain : arithmetic.chain x links with
    | ok y =>
        have hread := hitems.action_value
          ((computes_arithmetic.perform_chain x links _).mpr ⟨y, hchain, rfl⟩)
        exact absurd hread hpath.not_reads
    | error err =>
        rw [hchain] at hpart
        exact ⟨err, hpart, hpath.raised hitems (perform_chain_raises hchain)⟩
  · have hitems : context.Reads (levels + 1) (l.operand.alternating l.separator) (w ++ s)
        .mismatch := .sequence_mismatch (.here hmiss)
    exact .inr ⟨ks', a, rest', ha, hle, hta, hfollows, hpart, hnot,
      (hpath.argument hitems).first hmiss⟩

/-- An expression that fails raises the error of the operators that are applied, or has the
error of the choice of its first factor. -/
theorem expr_failure (h : IsChain .sums ks e) (hw : AreBlanks w) (ht : Tight ks s rest)
    (hrest : Follows Level.sums.followers rest)
    (hpath : FailsThrough context limit exprRef (w ++ s) 0 error exprRef 0) :
    (∃ err, e.part arithmetic = .raises err ∧
      error = .leaf (.transform err.kind err.message) 0 []) ∨
    e.part arithmetic = .nothing ∧ ∃ e₁ e₂, error = .exhausted [e₁, e₂] 0 [] := by
  have hfactor : Takes context arithmetic Action.ofNumber e.nesting (16 * e.nesting + 12) factorRef
      IsFactor Level.products.inside [] :=
    computes_arithmetic.takes_factor perform_isPlain e.nesting
  have hsums := hpath.target computes_arithmetic.target_expr
  rcases chain_failure (by omega)
      (computes_arithmetic.takes_sums perform_isPlain (by omega) hfactor) h (Nat.le_refl _) hw ht
      hrest hsums with
    hraises | ⟨_, a, _, ha, hle, hta, hfollows, hpart, hnot, hterm⟩
  · exact .inl hraises
  rw [hpart]
  cases ha with
  | term ha =>
  rcases chain_failure (l := .products) (by omega) (Computes.takes_products hfactor) ha hle hw hta
      hfollows hterm with
    hraises | ⟨_, b, _, hb, -, -, -, hpart', hnot', hfirst⟩
  · exact .inl hraises
  rw [hpart']
  cases hb with
  | factor hb =>
  obtain ⟨es, hlength, rfl⟩ := (hfirst.target computes_arithmetic.target_factor).exhausted
  obtain ⟨e₁, e₂, rfl⟩ := List.length_eq_two.mp hlength
  refine .inr ⟨?_, e₁, e₂, rfl⟩
  rw [hb.part_eq]
  cases heval : b.eval arithmetic with
  | ok x => exact absurd (Expr.part_eq_read heval) (hnot' x)
  | error err => rfl

end Path

/-! ## The function -/

theorem ofNumber_injective {x y : Number}
    (h : (Action.ofNumber x : Value Action) = Action.ofNumber y) : x = y := by
  have hnumber := congrArg Action.number? h
  rw [number?_ofNumber, number?_ofNumber] at hnumber
  exact Option.some.inj hnumber

/-- The answer of an attempt at an expression whose evaluation fails. -/
theorem attempt_failing {t : Text} {e : Expr} {err : ArithmeticError} {limit : Nat}
    (h : IsExpression t e) (hlimit : 16 * e.nesting + 21 ≤ limit)
    (herr : e.eval arithmetic = .error err) :
    match e.part arithmetic with
    | .read x => ∃ u o s e', t = u ++ ((Token.operator o).text ++ s) ∧ IsExpression u e' ∧
        e'.eval arithmetic = .ok x ∧
        attempt context limit exprRef t 0 = .ok (.matched (Action.ofNumber x) u.length)
    | .raises err' => attempt context limit exprRef t 0 =
        .ok (.failed (.leaf (.transform err'.kind err'.message) 0 []))
    | .nothing => ∃ e₁ e₂, attempt context limit exprRef t 0 =
        .ok (.failed (.exhausted [e₁, e₂] 0 [])) := by
  obtain ⟨ks, w, s, rfl, hw, hs, he⟩ := h.tight
  have hend := follows_end Level.sums.followers
  have htakes := computes_arithmetic.reads_expr_part perform_isPlain (by omega)
    (computes_arithmetic.takes_factor perform_isPlain e.nesting) he (Nat.le_refl _) hw hs hend
  have hfails (hnot : ∀ x, e.part arithmetic ≠ .read x) :
      ∃ error, FailsThrough context limit exprRef (w ++ s) 0 error exprRef 0 :=
    FailsThrough.start isRegular_exprRef (Nat.zero_le _) hlimit (htakes.mismatch hnot)
  cases hpart : e.part arithmetic with
  | read x =>
      obtain ⟨mid, hread, hhalts⟩ := htakes.read hpart
      obtain ⟨u, y, hu, ⟨ks', e', hspells, he', hy⟩, hvalue⟩ :=
        computes_arithmetic.matches_expr (computes_arithmetic.matches_factor _) _ _ _
          (Nat.lt_succ_self _) hread.matches
      obtain rfl := ofNumber_injective hvalue
      rcases hhalts with ⟨⟨z, hz⟩, -⟩ | ⟨-, o, -, s', rfl⟩
      · cases herr.symm.trans hz
      · rw [hu] at hread ⊢
        exact ⟨u, o, s', e', rfl, ⟨ks', hspells, he'⟩, hy,
          hread.attempt (u := []) isRegular_exprRef hlimit⟩
  | raises err' =>
      obtain ⟨error, hpath⟩ := hfails (by simp [hpart])
      rcases expr_failure he hw hs hend hpath with ⟨err'', hraises, rfl⟩ | ⟨hnothing, -⟩
      · obtain rfl : err' = err'' := Part.raises.inj (hpart.symm.trans hraises)
        exact hpath.failed
      · cases hpart.symm.trans hnothing
  | nothing =>
      obtain ⟨error, hpath⟩ := hfails (by simp [hpart])
      rcases expr_failure he hw hs hend hpath with ⟨err'', hraises, -⟩ | ⟨-, e₁, e₂, rfl⟩
      · cases hpart.symm.trans hraises
      · exact ⟨e₁, e₂, hpath.failed⟩

section Evaluate

variable {β : Type} [Named β] {t : Text}

theorem evaluate_of_failed {error : ParseError Action}
    (h : attempt context defaultLimit exprRef t 0 = .ok (.failed error)) :
    (evaluate (.text t : Value β)).2 = .error (.refused error (some t)) := by
  rw [evaluate, Grammar.parse_text]
  show (parse context defaultLimit exprRef t).mapError Error.ofHalt = _
  rw [parse, h]
  rfl

theorem evaluate_of_matched {v : Value Action} {u : Text}
    (h : attempt context defaultLimit exprRef t 0 = .ok (.matched v u.length))
    (hshort : u.length < t.length) : (evaluate (.text t : Value β)).2 =
      .error (.refused (.leaf (.unconsumed v u.length) u.length []) (some t)) := by
  rw [evaluate, Grammar.parse_text]
  show (parse context defaultLimit exprRef t).mapError Error.ofHalt = _
  rw [parse, h]
  show (Attempt.complete t (.matched v u.length)).mapError Error.ofHalt = _
  rw [Attempt.complete, if_neg (by omega)]
  rfl

/-- An expression whose evaluation fails is refused. The error of an operator along the chain
is raised as such, wherever in the chain the operator stands. In general the refusal is for
what the grammar makes of the expression: the error that the operators raise which are
applied; or, behind a part that is an expression with a value, the operator that was not
consumed; or the choice of the first factor, if no factor is read. -/
theorem evaluate_failing (e : Expr) (err : ArithmeticError) (h : IsExpression t e)
    (hnesting : e.nesting ≤ 30) (herr : e.eval arithmetic = .error err) :
    (e.FailsInChain arithmetic err → (evaluate (.text t : Value β)).2 =
      .error (.refused (.leaf (.transform err.kind err.message) 0 []) (some t))) ∧
    match e.part arithmetic with
    | .raises err' => (evaluate (.text t : Value β)).2 =
        .error (.refused (.leaf (.transform err'.kind err'.message) 0 []) (some t))
    | .read x => ∃ u o s e', t = u ++ ((Token.operator o).text ++ s) ∧ IsExpression u e' ∧
        e'.eval arithmetic = .ok x ∧ (evaluate (.text t : Value β)).2 =
          .error (.refused (.leaf (.unconsumed (Action.ofNumber x) u.length) u.length []) (some t))
    | .nothing => ∃ e₁ e₂, (evaluate (.text t : Value β)).2 =
        .error (.refused (.exhausted [e₁, e₂] 0 []) (some t)) := by
  have hlimit : 16 * e.nesting + 21 ≤ defaultLimit := by
    simp only [defaultLimit]
    omega
  have hanswer := attempt_failing h hlimit herr
  refine ⟨fun hchain => ?_, ?_⟩
  · rw [hchain.part_eq] at hanswer
    exact evaluate_of_failed hanswer
  · cases hpart : e.part arithmetic with
    | raises err' =>
        rw [hpart] at hanswer
        exact evaluate_of_failed hanswer
    | read x =>
        rw [hpart] at hanswer
        obtain ⟨u, o, s, e', rfl, he', hx, hattempt⟩ := hanswer
        refine ⟨u, o, s, e', rfl, he', hx, evaluate_of_matched hattempt ?_⟩
        rw [List.length_append]
        exact Nat.lt_add_of_pos_right (by cases o <;> exact Nat.succ_pos _)
    | nothing =>
        rw [hpart] at hanswer
        obtain ⟨e₁, e₂, hattempt⟩ := hanswer
        exact ⟨e₁, e₂, evaluate_of_failed hattempt⟩

end Evaluate

namespace Quotients

/-- One divided by zero. -/
def undefined : Expr := .binary .divide (.number "1") (.number "0")

/-- In `1+1/0` the division is part of the second operand, and in `1/0+1` of the first. -/
def second : Expr := .binary .plus (.number "1") undefined

def first : Expr := .binary .plus undefined (.number "1")

theorem isExpression_second : IsExpression "1+1/0" second := by
  have hread : readNode treeContext 40 exprRef "1+1/0" = .matched second.toValue [] := rfl
  exact .of_read hread

theorem isExpression_first : IsExpression "1/0+1" first := by
  have hread : readNode treeContext 40 exprRef "1/0+1" = .matched first.toValue [] := rfl
  exact .of_read hread

theorem eval_second : second.eval arithmetic = .error .divisionByZero := rfl

theorem failsInChain_first : first.FailsInChain arithmetic .divisionByZero :=
  .before (.here rfl rfl rfl)

/-- The error of an operation further inside is not raised: of `1+1/0` the sum is given up
together with its second operand, and what is reported is text that was not consumed. -/
theorem evaluate_second_not_transform :
    IsExpression "1+1/0" second ∧ second.nesting ≤ 30 ∧
      second.eval arithmetic = .error .divisionByZero ∧
      (evaluate (.text "1+1/0" : Value Action)).2 =
        .error (.refused (.leaf (.unconsumed (.int 1) 1) 1 []) (some "1+1/0")) ∧
      ∀ e t, (evaluate (.text "1+1/0" : Value Action)).2 = .error (.refused e t) →
        e.kind ≠ .transform := by
  have hanswer : (evaluate (.text "1+1/0" : Value Action)).2 =
      .error (.refused (.leaf (.unconsumed (.int 1) 1) 1 []) (some "1+1/0")) := rfl
  refine ⟨isExpression_second, by decide, eval_second, hanswer, fun e t h => ?_⟩
  cases hanswer.symm.trans h
  decide

/-- The same division is reported as such in the first operand, and not in the second. -/
theorem evaluate_failing_quotients :
    (IsExpression "1/0+1" first ∧ first.nesting ≤ 30 ∧
      first.eval arithmetic = .error .divisionByZero ∧
      first.FailsInChain arithmetic .divisionByZero ∧
      (evaluate (.text "1/0+1" : Value Action)).2 = .error (.refused
        (.leaf (.transform .zeroDivision "division by zero") 0 []) (some "1/0+1"))) ∧
    IsExpression "1+1/0" second ∧ second.part arithmetic = .read (.int 1) ∧
      ∃ u o s e, Text.ofString "1+1/0" = u ++ ((Token.operator o).text ++ s) ∧
        IsExpression u e ∧ e.eval arithmetic = .ok (.int 1) ∧
        (evaluate (.text "1+1/0" : Value Action)).2 =
          .error (.refused (.leaf (.unconsumed (.int 1) u.length) u.length []) (some "1+1/0")) := by
  have hfirst := (evaluate_failing (β := Action) first .divisionByZero isExpression_first
    (by decide) failsInChain_first.eval_eq).1 failsInChain_first
  have hsecond := (evaluate_failing (β := Action) second .divisionByZero isExpression_second
    (by decide) eval_second).2
  have hpart : second.part arithmetic = .read (.int 1) := rfl
  rw [hpart] at hsecond
  exact ⟨⟨isExpression_first, by decide, failsInChain_first.eval_eq, failsInChain_first, hfirst⟩,
    isExpression_second, hpart, hsecond⟩

end Quotients

end Peg.Calculator
