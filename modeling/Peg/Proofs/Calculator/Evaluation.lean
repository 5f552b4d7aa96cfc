import Peg.Proofs.Calculator.Arithmetic
import Peg.Proofs.Calculator.Expression
import Peg.Proofs.Guarded

/-!
# Evaluating expressions

The function `evaluate` computes exactly what expressions mean. The actions compute
arithmetic. They could as well have given back the trees, written as values of the
grammar, and the grammar would have read every expression with these actions: so a text
has one tree at most, and an evaluation that goes through gives the value of that tree.

A text that is no expression, or one whose tree has no value, is refused.
-/

namespace Peg.Calculator

open Context

variable {N : Type} {ctx : Context Action} {M : Meaning N} {embed : N → Value Action}
  {t : Text} {v : Value Action}

/-! ## Whole texts -/

theorem Computes.isExpression (hctx : Computes ctx M embed)
    (h : ctx.Matches exprRef t v []) :
    ∃ e x, IsExpression t e ∧ e.eval M = .ok x ∧ v = embed x := by
  obtain ⟨u, x, ht, ⟨ks, e, hu, he, hx⟩, hv⟩ :=
    hctx.matches_expr (hctx.matches_factor (t.length + 1)) t v [] (Nat.lt_succ_self _) h
  rw [List.append_nil] at ht
  exact ⟨e, x, ⟨ks, ht ▸ hu, he⟩, hx, hv⟩

theorem follows_end (cs : List CodePoint) : Follows cs [] := by
  intro c hhead
  cases hhead

/-- Between the blanks in front and the end of the text stand the tokens of an expression. -/
theorem IsExpression.tight {e : Expr} (h : IsExpression t e) :
    ∃ ks w s, t = w ++ s ∧ AreBlanks w ∧ Tight ks s [] ∧ IsChain .sums ks e := by
  obtain ⟨ks, ht, he⟩ := h
  obtain ⟨w, s, heq, hw, hs⟩ := ht.tight .nil
  rw [List.append_nil] at heq
  exact ⟨ks, w, s, heq, hw, hs, he⟩

theorem Computes.reads_expression {e : Expr} {x : N} (hctx : Computes ctx M embed)
    (h : IsExpression t e) (hx : e.eval M = .ok x) :
    ctx.Reads (16 * e.nesting + 20) exprRef t (.matched (embed x) []) := by
  obtain ⟨ks, w, s, rfl, hw, hs, he⟩ := h.tight
  exact hctx.reads_expr (by omega) (hctx.reads_factor e.nesting) he (Nat.le_refl _) hx hw hs
    (follows_end _)

/-! ## The trees as a meaning -/

/-- Digits as the grammar gives them to an action. -/
def digitsValue : Text → Value Action
  | [] => .null
  | c :: t => .tuple [.text [c], .list (t.map fun d => .text [d])]

/-- Every construct stands for itself. -/
def trees : Meaning (Value Action) where
  number digits := .ok (digitsValue digits)
  group v := .captured .null v
  factorial v := .ok (.tuple [v])
  negate v := .list [v]
  binary o a b := .ok (.tuple [a, linkValue id (o, b)])

/-- The actions that put the trees together. -/
def buildTree : Action → Value Action → Value Action
  | .token, .tuple [_, v, _] => v
  | .group, .tuple [_, v, _] => .captured .null v
  | .factorials, .tuple [v, .list signs] => signs.foldl (fun v _ => .tuple [v]) v
  | .negation, .tuple [_, v] => .list [v]
  | .chain, .tuple [v, .list links] => links.foldl (fun v link => .tuple [v, link]) v
  | _, v => v

def treeContext : Context Action where
  bindings := context.bindings
  perform act v := .value (buildTree act v)

theorem factorials_trees (v : Value Action) (signs : List (Value Action)) :
    trees.factorials v signs.length = .ok (signs.foldl (fun v _ => .tuple [v]) v) := by
  induction signs generalizing v with
  | nil => rfl
  | cons sign signs ih => exact ih (.tuple [v])

theorem chain_trees (v : Value Action) (links : List (Operator × Value Action)) :
    trees.chain v links =
      .ok ((links.map (linkValue id)).foldl (fun v link => .tuple [v, link]) v) := by
  induction links generalizing v with
  | nil => rfl
  | cons link links ih => exact ih (.tuple [v, linkValue id link])

theorem computes_trees : Computes treeContext trees id where
  bindings := rfl
  perform_token a v b w := by simp [treeContext, buildTree, eq_comm]
  perform_number c t w := by simp [treeContext, buildTree, trees, digitsValue, eq_comm]
  perform_group a x b w := by simp [treeContext, buildTree, trees, eq_comm]
  perform_factorials x vs w := by
    simp [treeContext, buildTree, factorials_trees, eq_comm]
  perform_negation a x w := by simp [treeContext, buildTree, trees, eq_comm]
  perform_chain x links w := by simp [treeContext, buildTree, chain_trees, eq_comm]

/-- The tree as a value. -/
def Expr.toValue : Expr → Value Action
  | number digits => digitsValue digits
  | group e => .captured .null e.toValue
  | factorial e => .tuple [e.toValue]
  | negate e => .list [e.toValue]
  | binary o a b => .tuple [a.toValue, linkValue id (o, b.toValue)]

theorem Expr.eval_trees (e : Expr) : e.eval trees = .ok e.toValue := by
  induction e with
  | number digits => rfl
  | group e ih | factorial e ih | negate e ih => rw [eval, ih]; rfl
  | binary o a b iha ihb => rw [eval, iha, ihb]; rfl

theorem Operator.sign_injective {o o' : Operator} (h : o.sign = o'.sign) : o = o' := by
  cases o <;> cases o' <;> first | rfl | exact absurd h (by decide)

theorem digitsValue_injective {t t' : Text} (h : digitsValue t = digitsValue t') : t = t' := by
  have hmap : Function.Injective (fun c : CodePoint => (.text [c] : Value Action)) :=
    fun c d h => by injection h with h; injection h
  cases t <;> cases t' <;> simp only [digitsValue, reduceCtorEq] at h
  · rfl
  · simp only [Value.tuple.injEq, List.cons.injEq, Value.text.injEq, Value.list.injEq, and_true,
      List.map_inj_right fun _ _ h => hmap h] at h
    rw [h.1, h.2]

theorem Expr.toValue_injective {e e' : Expr} (h : e.toValue = e'.toValue) : e = e' := by
  induction e generalizing e' with
  | number digits =>
      cases e' with
      | number digits' => rw [digitsValue_injective h]
      | _ => cases digits <;> simp [toValue, digitsValue, linkValue] at h
  | group e ih =>
      cases e' with
      | group e' => rw [ih (by simpa [toValue] using h)]
      | number digits => cases digits <;> simp [toValue, digitsValue] at h
      | _ => simp [toValue] at h
  | factorial e ih =>
      cases e' with
      | factorial e' => rw [ih (by simpa [toValue] using h)]
      | number digits => cases digits <;> simp [toValue, digitsValue] at h
      | _ => simp [toValue] at h
  | negate e ih =>
      cases e' with
      | negate e' => rw [ih (by simpa [toValue] using h)]
      | number digits => cases digits <;> simp [toValue, digitsValue] at h
      | _ => simp [toValue] at h
  | binary o a b iha ihb =>
      cases e' with
      | binary o' a' b' =>
          obtain ⟨ha, ho, hb⟩ : a.toValue = a'.toValue ∧ o.sign = o'.sign ∧
              b.toValue = b'.toValue := by simpa [toValue, linkValue] using h
          rw [iha ha, Operator.sign_injective ho, ihb hb]
      | number digits => cases digits <;> simp [toValue, digitsValue, linkValue] at h
      | _ => simp [toValue] at h

/-- A text has one syntax tree at most. -/
theorem IsExpression.unique {e e' : Expr} (h : IsExpression t e) (h' : IsExpression t e') :
    e = e' := by
  have hread := computes_trees.reads_expression h e.eval_trees
  have hread' := computes_trees.reads_expression h' e'.eval_trees
  have heq := hread.unique hread'
  injection heq with hvalue
  exact Expr.toValue_injective hvalue

/-- A text that is read as a tree is an expression. -/
theorem IsExpression.of_read {e : Expr} {limit : Nat}
    (h : readNode treeContext limit exprRef t = .matched e.toValue []) : IsExpression t e := by
  obtain ⟨e', x, he', hx, hvalue⟩ := computes_trees.isExpression ⟨limit, h⟩
  obtain rfl : e'.toValue = x := Except.ok.inj (e'.eval_trees.symm.trans hx)
  rwa [Expr.toValue_injective hvalue]

/-! ## Arithmetic -/

theorem digits?_run (c : CodePoint) (t : Text) :
    Action.digits? (.tuple [.text [c], .list (t.map fun d => (.text [d] : Value Action))]) =
      some ((c :: t).map CodePoint.digitValue) := by
  have hmapM : ∀ f : Value Action → Option Text, (∀ d, f (.text [d]) = some [d]) →
      (t.map fun d => (.text [d] : Value Action)).mapM f = some (t.map fun d => [d]) := by
    intro f hf
    induction t with
    | nil => rfl
    | cons d t ih => simp [List.mapM_cons, hf, ih]
  have hflat : (t.map fun d => [d]).flatten = t := by
    rw [← List.flatMap_def, List.flatMap_singleton']
  rw [Action.digits?, hmapM _ fun _ => rfl]
  show some (([c] ++ (t.map fun d => [d]).flatten).map CodePoint.digitValue) = _
  rw [hflat]
  rfl

theorem number?_ofNumber (x : Number) :
    Action.number? (Action.ofNumber x : Value Action) = some x := by
  cases x <;> rfl

theorem links?_map (links : List (Operator × Number)) :
    Action.links? (links.map (linkValue Action.ofNumber)) = some links := by
  induction links with
  | nil => rfl
  | cons link links ih =>
      obtain ⟨o, y⟩ := link
      have hsign : Operator.ofText? [o.sign] = some o := by cases o <;> decide
      rw [List.map_cons, linkValue, Action.links?, hsign, number?_ofNumber, ih]
      rfl

theorem factorialTimes_eq (x : Number) (k : Nat) :
    Action.factorialTimes x k = arithmetic.factorials x k := by
  induction k generalizing x with
  | zero => rfl
  | succ k ih =>
      rw [Action.factorialTimes, Meaning.factorials, funext ih, Number.factorial_eq]

theorem applyChain_eq (x : Number) (links : List (Operator × Number)) :
    Action.applyChain x links = arithmetic.chain x links := by
  induction links generalizing x with
  | nil => rfl
  | cons link links ih =>
      obtain ⟨o, y⟩ := link
      rw [Action.applyChain, Meaning.chain, funext ih, Operator.apply_eq]

theorem perform_eq_value {act : Action} {raw w : Value Action} {r : Except ArithmeticError Number}
    (h : act.denote? raw = some (r.map Action.ofNumber)) :
    context.perform act raw = .value w ↔ ∃ x, r = .ok x ∧ w = Action.ofNumber x := by
  show act.perform raw = .value w ↔ _
  rw [Action.perform, h]
  cases r <;> simp [Except.map, eq_comm]

theorem denote?_chain (x : Number) (links : List (Operator × Number)) :
    Action.denote? .chain
        (.tuple [Action.ofNumber x, .list (links.map (linkValue Action.ofNumber))]) =
      some ((arithmetic.chain x links).map (Action.ofNumber (α := Action))) := by
  rw [Action.denote?, number?_ofNumber, links?_map, ← applyChain_eq]
  rfl

theorem computes_arithmetic : Computes context arithmetic Action.ofNumber where
  bindings := rfl
  perform_token a v b w := by
    show Action.perform .token (.tuple [a, v, b]) = .value w ↔ _
    simp [Action.perform, Action.denote?, eq_comm]
  perform_number c t w := by
    refine perform_eq_value ?_
    rw [Action.denote?, digits?_run, Option.map_some, ofDigits_eq_number]
  perform_group a x b w := by
    show Action.perform .group (.tuple [a, Action.ofNumber x, b]) = .value w ↔ _
    simp [Action.perform, Action.denote?, arithmetic, eq_comm]
  perform_factorials x vs w := by
    refine perform_eq_value ?_
    rw [Action.denote?, number?_ofNumber, Option.map_some, factorialTimes_eq]
  perform_negation a x w := by
    show Action.perform .negation (.tuple [a, Action.ofNumber x]) = .value w ↔ _
    simp [Action.perform, Action.denote?, number?_ofNumber, Number.neg_eq, eq_comm]
  perform_chain x links w := perform_eq_value (denote?_chain x links)

/-! ## The function -/

theorem perform_isPlain (act : Action) (v : Value Action) : (context.perform act v).IsPlain := by
  show (act.perform v).IsPlain
  unfold Action.perform
  split
  · trivial
  · next e _ => cases e <;> exact ⟨rfl, fun h => by cases h⟩
  · exact ⟨rfl, by decide⟩

theorem isRegular_rule (r : Rule) : context.IsRegular (r.node id) := by
  cases r <;> exact isRegular_of_isReady (by decide) (by decide) perform_isPlain

theorem isRegular_exprRef : context.IsRegular exprRef := isRegular_rule .exprRef

/-- A factor is entered from an expression before anything is taken off the text, and an
expression or another factor from it only behind a parenthesis or a minus sign. -/
def rank (id : Nat) : Nat := if id = exprId then 1 else 0

theorem isRanked : context.IsRanked rank 2 where
  le_top id := by
    unfold rank
    split <;> decide
  guarded := by decide

theorem settles_rule (r : Rule) (t : Text) : context.Settles (r.node id) t :=
  isRanked.settles (r.node id) t 2 (Node.guarded_top isRanked.le_top _) (isRegular_rule r)

theorem settles_exprRef (t : Text) : context.Settles exprRef t := settles_rule .exprRef t

section Evaluate

variable {β : Type} [Named β]

theorem evaluate_eq_ok_iff : (evaluate (.text t : Value β)).2 = .ok v ↔
    readNode context defaultLimit exprRef t = .matched v [] :=
  Grammar.parse_eq_ok_iff isRegular_exprRef

/-- A value that `evaluate` gives is that of the one syntax tree that the text has; a
text whose tree has a value and does not nest too deep is evaluated to it; and a text
without a tree that has a value is refused. -/
theorem evaluate_computes (t : Text) :
    (∀ v, (evaluate (.text t : Value β)).2 = .ok v →
      ∃ e x, IsExpression t e ∧ (∀ e', IsExpression t e' → e' = e) ∧
        e.eval arithmetic = .ok x ∧ v = Action.ofNumber x) ∧
    (∀ e x, IsExpression t e → e.nesting ≤ 30 → e.eval arithmetic = .ok x →
      (evaluate (.text t : Value β)).2 = .ok (Action.ofNumber x)) ∧
    ((∀ e x, IsExpression t e → e.eval arithmetic ≠ .ok x) →
      ∃ e, (evaluate (.text t : Value β)).2 = .error (.refused e (some t))) := by
  have hsound : ∀ v, (evaluate (.text t : Value β)).2 = .ok v →
      ∃ e x, IsExpression t e ∧ e.eval arithmetic = .ok x ∧ v = Action.ofNumber x :=
    fun v hv => computes_arithmetic.isExpression ⟨_, evaluate_eq_ok_iff.mp hv⟩
  refine ⟨fun v hv => ?_, fun e x he hnesting hx => ?_, fun hnone => ?_⟩
  · obtain ⟨e, x, he, hx, rfl⟩ := hsound v hv
    exact ⟨e, x, he, fun e' he' => he'.unique he, hx, rfl⟩
  · have hlimit : 16 * e.nesting + 20 ≤ defaultLimit := by
      simp only [defaultLimit]
      omega
    exact evaluate_eq_ok_iff.mpr (computes_arithmetic.reads_expression he hx _ hlimit)
  · refine Grammar.parse_refused isRegular_exprRef (settles_exprRef t) fun v hv => ?_
    obtain ⟨e, x, he, hx, -⟩ := hsound v hv
    exact hnone e x he hx

end Evaluate

end Peg.Calculator
