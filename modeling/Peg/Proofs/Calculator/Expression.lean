import Peg.Proofs.Calculator.Tokens

/-!
# Reading expressions

What the grammar matches is an expression, and its result is what the tree means. An
action without a value makes its node fail, and then the grammar goes on from an
earlier place; but what it puts together in the end is still a tree of the tokens that
it took, every part of which has a meaning.

Conversely an expression with a meaning is read in full. What is read first is decided
by the next token each time, so nothing is taken back, and the levels that it takes
depend on the nesting alone.
-/

namespace Peg.Calculator

open Context

variable {N : Type} {ctx : Context Action} {M : Meaning N} {embed : N → Value Action}
  {s rest : Text} {v : Value Action}

/-! ## The shape of the rules -/

def Level.operand : Level → Node Action
  | sums => term id
  | products => factorRef

def Level.separator (l : Level) : Node Action :=
  token id (.oneOf (l.operators.map Operator.sign))

/-- The rule of a chain. -/
def Level.node (l : Level) : Node Action := .action (l.operand.alternating l.separator) .chain

def negation : Node Action :=
  .action (.sequence [token id (.literal (Token.operator .minus).text), factorRef]) .negation

theorem factor_eq : (factor id : Node Action) = .choice [negation, postfixed id] := rfl

def atom : Node Action := .choice [token id (number id), group id]

theorem postfixed_eq : (postfixed id : Node Action) =
    .action (.sequence [atom, .many (token id (.literal Token.bang.text))]) .factorials := rfl

theorem group_eq : (group id : Node Action) =
    .action (.sequence [token id (.literal Token.opening.text), exprRef,
      token id (.literal Token.closing.text)]) .group := rfl

theorem Computes.target_expr (hctx : Computes ctx M embed) :
    ctx.bindings.target? exprId = some Level.sums.node := by
  rw [hctx.bindings]
  rfl

theorem Computes.target_factor (hctx : Computes ctx M embed) :
    ctx.bindings.target? factorId = some (factor id) := by
  rw [hctx.bindings]
  rfl

/-! ## What is read is an expression -/

/-- The text has a tree of the given sort, and the tree means `x`. -/
def Denotes (M : Meaning N) (P : List Token → Expr → Prop) (t : Text) (x : N) : Prop :=
  ∃ ks e, Spells ks t ∧ P ks e ∧ e.eval M = .ok x

/-- On texts shorter than `size` the node matches nothing but texts of the given sort. -/
def Accepts (ctx : Context Action) (M : Meaning N) (embed : N → Value Action) (size : Nat)
    (node : Node Action) (P : List Token → Expr → Prop) : Prop :=
  ∀ s v rest, s.length < size → ctx.Matches node s v rest →
    ∃ t x, s = t ++ rest ∧ Denotes M P t x ∧ v = embed x

theorem Spells.length_pos {k : Token} {t : Text} (h : Spells [k] t) : 0 < t.length := by
  cases h with
  | cons _ _ _ =>
      obtain ⟨c, u, hk, -⟩ := k.head
      simp only [hk, List.length_append, List.length_cons]
      omega

theorem eval_factorials (e : Expr) (k : Nat) :
    (e.factorials k).eval M = (e.eval M).bind (M.factorials · k) := by
  induction k generalizing e with
  | zero => rw [Expr.factorials]; cases e.eval M <;> rfl
  | succ k ih =>
      rw [Expr.factorials, ih, Expr.eval]
      cases e.eval M <;> rfl

namespace Computes

theorem matches_links {l : Level} {size : Nat} {vs : List (Value Action)}
    (hctx : Computes ctx M embed)
    (hoperand : Accepts ctx M embed size l.operand (IsOperand l)) (hsize : s.length < size)
    (h : ctx.MatchesMany (.sequence [l.separator, l.operand]) s vs rest) :
    ∃ t ls links, s = t ++ rest ∧ Spells ls t ∧ vs = links.map (linkValue embed) ∧
      ∀ a x y, a.eval M = .ok x → M.chain x links = .ok y →
        ∃ e, IsLinks l a ls e ∧ e.eval M = .ok y := by
  induction vs generalizing s with
  | nil =>
      obtain rfl : rest = s := h
      refine ⟨[], [], [], rfl, .nil, rfl, fun a x y ha hy => ⟨a, .nil, ?_⟩⟩
      rw [ha, ← hy]
      rfl
  | cons v vs ih =>
      obtain ⟨mid, hv, hvs⟩ := h
      obtain ⟨_, rfl, sign, m₁, _, rfl, hsign, b, m₂, _, rfl, hb, rfl, rfl⟩ := hv.sequence
      obtain ⟨t₁, o, ho, rfl, ht₁, rfl⟩ := hctx.matches_operator hsign
      rw [List.length_append] at hsize
      obtain ⟨t₂, y, rfl, ⟨ks, e, ht₂, he, hy⟩, rfl⟩ := hoperand m₁ b mid (by omega) hb
      rw [List.length_append] at hsize
      obtain ⟨t₃, ls, links, rfl, ht₃, rfl, hlinks⟩ := ih (by omega) hvs
      refine ⟨t₁ ++ (t₂ ++ t₃), .operator o :: (ks ++ ls), (o, y) :: links, by simp,
        ht₁.append (ht₂.append ht₃), rfl, ?_⟩
      intro a x z ha hz
      rw [Meaning.chain] at hz
      cases hxy : M.binary o x y with
      | error err => rw [hxy] at hz; cases hz
      | ok w =>
          rw [hxy] at hz
          have hbinary : (Expr.binary o a e).eval M = .ok w := by
            rw [Expr.eval, ha, hy]
            exact hxy
          obtain ⟨e', he', heval⟩ := hlinks _ w z hbinary hz
          exact ⟨e', .cons ho he he', heval⟩

theorem matches_chain {l : Level} {size : Nat} (hctx : Computes ctx M embed)
    (hoperand : Accepts ctx M embed size l.operand (IsOperand l)) :
    Accepts ctx M embed size l.node (IsChain l) := by
  intro s v rest hsize h
  obtain ⟨raw, hraw, hact⟩ := h.action
  obtain ⟨_, rfl, first, m₁, _, rfl, hfirst, more, m₂, _, rfl, hmore, rfl, rfl⟩ := hraw.sequence
  obtain ⟨vs, rfl, hvs⟩ := hmore.many
  obtain ⟨t₁, x, rfl, ⟨ks, a, ht₁, ha, hx⟩, rfl⟩ := hoperand s first m₁ hsize hfirst
  rw [List.length_append] at hsize
  obtain ⟨t₂, ls, links, rfl, ht₂, rfl, hlinks⟩ := hctx.matches_links hoperand (by omega) hvs
  obtain ⟨y, hy, rfl⟩ := (hctx.perform_chain x links v).mp hact
  obtain ⟨e, he, heval⟩ := hlinks a x y hx hy
  exact ⟨t₁ ++ t₂, y, by simp, ⟨ks ++ ls, e, ht₁.append ht₂, .intro ha he, heval⟩, rfl⟩

theorem matches_expr {size : Nat} (hctx : Computes ctx M embed)
    (hfactor : Accepts ctx M embed size factorRef IsFactor) :
    Accepts ctx M embed size exprRef (IsChain .sums) := by
  have hproducts : Accepts ctx M embed size Level.products.operand (IsOperand .products) := by
    intro s v rest hsize h
    obtain ⟨t, x, hs, ⟨ks, e, ht, he, hx⟩, hv⟩ := hfactor s v rest hsize h
    exact ⟨t, x, hs, ⟨ks, e, ht, .factor he, hx⟩, hv⟩
  have hsums : Accepts ctx M embed size Level.sums.operand (IsOperand .sums) := by
    intro s v rest hsize h
    obtain ⟨t, x, hs, ⟨ks, e, ht, he, hx⟩, hv⟩ := hctx.matches_chain hproducts s v rest hsize h
    exact ⟨t, x, hs, ⟨ks, e, ht, .term he, hx⟩, hv⟩
  intro s v rest hsize h
  exact hctx.matches_chain hsums s v rest hsize (h.placeholder hctx.target_expr)

theorem matches_bangs {vs : List (Value Action)} (hctx : Computes ctx M embed)
    (h : ctx.MatchesMany (token id (.literal Token.bang.text)) s vs rest) :
    ∃ t, s = t ++ rest ∧ Spells (List.replicate vs.length .bang) t := by
  induction vs generalizing s with
  | nil =>
      obtain rfl : rest = s := h
      exact ⟨[], rfl, .nil⟩
  | cons v vs ih =>
      obtain ⟨mid, hv, hvs⟩ := h
      obtain ⟨t, rfl, ht⟩ := hctx.matches_sign .bang hv
      obtain ⟨u, rfl, hu⟩ := ih hvs
      exact ⟨t ++ u, by simp, ht.append hu⟩

theorem matches_atom {size : Nat} (hctx : Computes ctx M embed)
    (hfactor : Accepts ctx M embed size factorRef IsFactor) (hsize : s.length ≤ size)
    (h : ctx.Matches atom s v rest) :
    ∃ t x, s = t ++ rest ∧ Denotes M IsAtom t x ∧ v = embed x := by
  obtain ⟨n, hn, hmatch⟩ := h.choice
  rcases List.mem_cons.mp hn with rfl | hn
  · obtain ⟨t, digits, valid, x, hs, ht, hx, hv⟩ := hctx.matches_number hmatch
    exact ⟨t, x, hs, ⟨_, .number digits, ht, .number, hx⟩, hv⟩
  · obtain rfl := List.mem_singleton.mp hn
    rw [group_eq] at hmatch
    obtain ⟨raw, hraw, hact⟩ := hmatch.action
    obtain ⟨_, rfl, a, m₁, _, rfl, ha, b, m₂, _, rfl, hb, c, m₃, _, rfl, hc, rfl, rfl⟩ :=
      hraw.sequence
    obtain ⟨t₁, rfl, ht₁⟩ := hctx.matches_sign .opening ha
    obtain ⟨t₃, rfl, ht₃⟩ := hctx.matches_sign .closing hc
    have hpos := ht₁.length_pos
    rw [List.length_append] at hsize
    obtain ⟨t₂, x, rfl, ⟨ks, e, ht₂, he, hx⟩, rfl⟩ :=
      hctx.matches_expr hfactor m₁ b _ (by omega) hb
    obtain rfl := (hctx.perform_group a x c v).mp hact
    refine ⟨t₁ ++ (t₂ ++ t₃), M.group x, by simp, ⟨_, _, ht₁.append (ht₂.append ht₃),
      .group he, ?_⟩, rfl⟩
    rw [Expr.eval, hx]
    rfl

theorem matches_factor (hctx : Computes ctx M embed) (size : Nat) :
    Accepts ctx M embed size factorRef IsFactor := by
  induction size with
  | zero => exact fun s v rest hsize => absurd hsize (Nat.not_lt_zero _)
  | succ size ih =>
      intro s v rest hsize h
      obtain ⟨n, hn, hmatch⟩ := (h.placeholder hctx.target_factor).choice
      rcases List.mem_cons.mp hn with rfl | hn
      · obtain ⟨raw, hraw, hact⟩ := hmatch.action
        obtain ⟨_, rfl, a, m₁, _, rfl, ha, b, m₂, _, rfl, hb, rfl, rfl⟩ := hraw.sequence
        obtain ⟨t₁, rfl, ht₁⟩ := hctx.matches_sign (.operator .minus) ha
        have hpos := ht₁.length_pos
        rw [List.length_append] at hsize
        obtain ⟨t₂, x, rfl, ⟨ks, e, ht₂, he, hx⟩, rfl⟩ := ih m₁ b _ (by omega) hb
        obtain rfl := (hctx.perform_negation a x v).mp hact
        refine ⟨t₁ ++ t₂, M.negate x, by simp, ⟨_, _, ht₁.append ht₂, .negation he, ?_⟩, rfl⟩
        rw [Expr.eval, hx]
        rfl
      · obtain rfl := List.mem_singleton.mp hn
        rw [postfixed_eq] at hmatch
        obtain ⟨raw, hraw, hact⟩ := hmatch.action
        obtain ⟨_, rfl, a, m₁, _, rfl, ha, b, m₂, _, rfl, hb, rfl, rfl⟩ := hraw.sequence
        obtain ⟨vs, rfl, hvs⟩ := hb.many
        obtain ⟨t₁, x, rfl, ⟨ks, e, ht₁, he, hx⟩, rfl⟩ := hctx.matches_atom ih (by omega) ha
        obtain ⟨t₂, rfl, ht₂⟩ := hctx.matches_bangs hvs
        obtain ⟨y, hy, rfl⟩ := (hctx.perform_factorials x vs v).mp hact
        exact ⟨t₁ ++ t₂, y, by simp, ⟨_, _, ht₁.append ht₂, .postfixed vs.length he,
          by rw [eval_factorials, hx]; exact hy⟩, rfl⟩

end Computes

/-! ## Expressions are read -/

/-- What can follow a chain. -/
def Level.followers : Level → List CodePoint
  | sums => [CodePoint.ofChar ')']
  | products => [Operator.plus.sign, Operator.minus.sign, CodePoint.ofChar ')']

/-- What can follow an operand of a chain. -/
def Level.inside (l : Level) : List CodePoint := l.operators.map Operator.sign ++ l.followers

theorem Level.followers_other (l : Level) {c : CodePoint} (hc : c ∈ l.followers) :
    c ∉ l.operators.map Operator.sign := by
  cases l <;> simp only [followers, List.mem_cons, List.not_mem_nil, or_false] at hc
  · subst hc
    decide
  · rcases hc with rfl | rfl | rfl <;> decide

/-- With `levels` levels the node reads every tree of the given sort that has a meaning
and does not nest deeper than `depth`, where one of `followers` comes next. -/
def Finds (ctx : Context Action) (M : Meaning N) (embed : N → Value Action) (depth levels : Nat)
    (node : Node Action) (P : List Token → Expr → Prop) (followers : List CodePoint) : Prop :=
  ∀ {ks : List Token} {e : Expr} {x : N} {w s rest : Text}, P ks e → e.nesting ≤ depth →
    e.eval M = .ok x → AreBlanks w → Tight ks s rest → Follows followers rest →
      ctx.Reads levels node (w ++ s) (.matched (embed x) rest)

section Eval

variable {e a b : Expr} {o : Operator} {x z : N}

theorem eval_group : (Expr.group e).eval M = .ok z ↔
    ∃ x, e.eval M = .ok x ∧ z = M.group x := by
  rw [Expr.eval]
  cases e.eval M <;> simp [Except.map, eq_comm]

theorem eval_negate : (Expr.negate e).eval M = .ok z ↔
    ∃ x, e.eval M = .ok x ∧ z = M.negate x := by
  rw [Expr.eval]
  cases e.eval M <;> simp [Except.map, eq_comm]

theorem eval_binary : (Expr.binary o a b).eval M = .ok z ↔
    ∃ x y, a.eval M = .ok x ∧ b.eval M = .ok y ∧ M.binary o x y = .ok z := by
  rw [Expr.eval]
  cases a.eval M <;> cases b.eval M <;> simp [bind, Except.bind]

theorem nesting_factorials (e : Expr) (k : Nat) : (e.factorials k).nesting = e.nesting := by
  induction k generalizing e with
  | zero => rfl
  | succ k ih => exact ih e.factorial

end Eval

/-- Induction along a chain, from its first operand on. -/
theorem IsLinks.induct {l : Level}
    {motive : (a : Expr) → (ls : List Token) → (e : Expr) → IsLinks l a ls e → Prop}
    (nil : ∀ a, motive a [] a .nil)
    (cons : ∀ {o a b ks ls e} (ho : o ∈ l.operators) (hb : IsOperand l ks b)
      (hlinks : IsLinks l (.binary o a b) ls e), motive (.binary o a b) ls e hlinks →
        motive a (.operator o :: (ks ++ ls)) e (.cons ho hb hlinks))
    {a : Expr} {ls : List Token} {e : Expr} (h : IsLinks l a ls e) : motive a ls e h := by
  match h with
  | .nil => exact nil a
  | .cons ho hb hlinks => exact cons ho hb hlinks (hlinks.induct nil cons)

theorem IsLinks.nesting_le {l : Level} {a e : Expr} {ls : List Token} (h : IsLinks l a ls e) :
    a.nesting ≤ e.nesting := by
  induction h using IsLinks.induct with
  | nil a => exact Nat.le_refl _
  | cons _ _ _ ih =>
      rw [Expr.nesting] at ih
      omega

/-- The beginning of a chain has a meaning if the whole chain has one. -/
theorem IsLinks.start {l : Level} {a e : Expr} {ls : List Token} {z : N}
    (h : IsLinks l a ls e) (he : e.eval M = .ok z) : ∃ x, a.eval M = .ok x := by
  induction h using IsLinks.induct with
  | nil a => exact ⟨z, he⟩
  | cons _ _ _ ih =>
      obtain ⟨y, hy⟩ := ih he
      obtain ⟨x, _, hx, -, -⟩ := eval_binary.mp hy
      exact ⟨x, hx⟩

theorem IsAtom.head_ne_minus {ks : List Token} {e : Expr} (h : IsAtom ks e)
    (ht : Tight ks s rest) : s.head? ≠ some (CodePoint.ofChar '-') := by
  intro hhead
  cases h with
  | number =>
      obtain ⟨c, hc, hdigit⟩ := ht.head_numeral
      rw [Option.some.inj (hc.symm.trans hhead)] at hdigit
      exact absurd hdigit (by decide)
  | group =>
      cases ht with
      | cons => exact absurd (Option.some.inj hhead) (by decide)

theorem IsLinks.follows {l : Level} {a e : Expr} {ls : List Token} (h : IsLinks l a ls e)
    (ht : Tight ls s rest) (hrest : Follows l.followers rest) : Follows l.inside s := by
  intro c hc
  match h with
  | .nil =>
      cases ht with
      | nil => exact List.mem_append_right _ (hrest c hc)
  | .cons ho _ _ =>
      cases ht with
      | cons =>
          rw [← Option.some.inj hc]
          exact List.mem_append_left _ (List.mem_map_of_mem ho)

namespace Computes

variable {depth levels : Nat}

theorem reads_separator_mismatch {l : Level} (hs : NoBlank s)
    (hhead : EndsRun (· ∈ l.operators.map Operator.sign) s) :
    ctx.Reads 5 l.separator s .mismatch := by
  have hsign : ctx.Reads 2 (.oneOf (l.operators.map Operator.sign)) s .mismatch :=
    .oneOf_mismatch hhead
  exact reads_token_mismatch (Nat.le_refl 3) .nil hs (hsign.mono (by omega))

theorem reads_links {l : Level} {a e : Expr} {ls : List Token} {x z : N} {s rest : Text}
    (hctx : Computes ctx M embed) (hlevels : 5 ≤ levels)
    (hoperand : Finds ctx M embed depth levels l.operand (IsOperand l) l.inside)
    (h : IsLinks l a ls e) (hdepth : e.nesting ≤ depth) (hx : a.eval M = .ok x)
    (hz : e.eval M = .ok z) (ht : Tight ls s rest) (hrest : Follows l.followers rest) :
    ∃ links, ctx.ReadsMany (levels + 1) (.sequence [l.separator, l.operand]) s
      (links.map (linkValue embed)) rest ∧ M.chain x links = .ok z := by
  induction h using IsLinks.induct generalizing x s with
  | nil =>
      obtain ⟨rfl, hblank⟩ := tight_nil.mp ht
      have hstop : ctx.Reads 5 l.separator rest .mismatch :=
        reads_separator_mismatch hblank fun c hc => l.followers_other (hrest c hc)
      refine ⟨[], .stop (.sequence_mismatch (.here (hstop.mono hlevels))), ?_⟩
      rw [← hz, hx]
      rfl
  | @cons o a b ks ls e ho hb hlinks ih =>
      obtain ⟨y, hy⟩ := hlinks.start hz
      obtain ⟨x', u, hx', hu, hbinary⟩ := eval_binary.mp hy
      obtain rfl : x = x' := Except.ok.inj (hx.symm.trans hx')
      have hle := hlinks.nesting_le
      rw [Expr.nesting] at hle
      have hsplit : Tight ([.operator o] ++ (ks ++ ls)) s rest := ht
      obtain ⟨m₁, ht₁, ht⟩ := hsplit.append
      obtain ⟨m₂, ht₂, ht₃⟩ := ht.append
      have hsign : ctx.Reads 5 l.separator s (.matched (.text [o.sign]) m₁) :=
        hctx.reads_operator ho ht₁
      have hright := hoperand hb (by omega) hu .nil ht₂
        (hlinks.follows ht₃ hrest)
      obtain ⟨links, hmany, hchain⟩ := ih hdepth hy hz ht₃
      have hstep : ctx.Reads (levels + 1) (.sequence [l.separator, l.operand]) s
          (.matched (linkValue embed (o, u)) m₂) :=
        .sequence (.cons (hsign.mono hlevels) (.cons hright (ReadsAll.nil.mono (by omega))))
      have hshorter : m₂.length < s.length := ht₂.length_le.trans_lt ht₁.length_lt
      refine ⟨(o, u) :: links, .step hstep hshorter hmany, ?_⟩
      rw [Meaning.chain, hbinary]
      exact hchain

theorem reads_chain {l : Level} (hctx : Computes ctx M embed) (hlevels : 5 ≤ levels)
    (hoperand : Finds ctx M embed depth levels l.operand (IsOperand l) l.inside) :
    Finds ctx M embed depth (levels + 4) l.node (IsChain l) l.followers := by
  intro ks e z w s rest h hdepth hz hw ht hrest
  cases h with
  | @intro _ ks ls a _ ha hlinks =>
      obtain ⟨mid, ht₁, ht₂⟩ := ht.append
      obtain ⟨x, hx⟩ := hlinks.start hz
      have hle := hlinks.nesting_le
      have hfirst := hoperand ha (by omega) hx hw ht₁ (hlinks.follows ht₂ hrest)
      obtain ⟨links, hmany, hchain⟩ :=
        hctx.reads_links hlevels hoperand hlinks hdepth hx hz ht₂ hrest
      exact (Reads.sequence (.cons (hfirst.mono (by omega)) (.cons (.many hmany)
        (ReadsAll.nil.mono (by omega))))).action_value
          ((hctx.perform_chain x links _).mpr ⟨z, hchain, rfl⟩)

/-- An expression takes nine levels more than its factors. -/
theorem reads_expr (hctx : Computes ctx M embed) (hlevels : 5 ≤ levels)
    (hfactor : Finds ctx M embed depth levels factorRef IsFactor Level.products.inside) :
    Finds ctx M embed depth (levels + 9) exprRef (IsChain .sums) Level.sums.followers := by
  have hproducts : Finds ctx M embed depth levels Level.products.operand (IsOperand .products)
      Level.products.inside := by
    intro ks e x w s rest h
    cases h with
    | factor h => exact hfactor h
  have hsums : Finds ctx M embed depth (levels + 4) Level.sums.operand (IsOperand .sums)
      Level.sums.inside := by
    intro ks e x w s rest h
    cases h with
    | term h => exact hctx.reads_chain hlevels hproducts h
  intro ks e x w s rest h hdepth hx hw ht hrest
  exact .placeholder hctx.target_expr (hctx.reads_chain (by omega) hsums h hdepth hx hw ht hrest)

theorem follows_bangs {signs : Nat} {cs : List CodePoint}
    (ht : Tight (List.replicate signs .bang) s rest) (hrest : Follows cs rest) :
    Follows (CodePoint.ofChar '!' :: cs) s := by
  intro c hc
  cases signs with
  | zero =>
      obtain ⟨rfl, -⟩ := tight_nil.mp ht
      exact List.mem_cons_of_mem _ (hrest c hc)
  | succ signs =>
      cases ht with
      | cons =>
          rw [← Option.some.inj hc]
          exact List.mem_cons_self

theorem reads_bangs (hctx : Computes ctx M embed) {signs : Nat}
    (ht : Tight (List.replicate signs .bang) s rest) (hrest : Follows Level.products.inside rest) :
    ∃ vs, ctx.ReadsMany 5 (token id (.literal Token.bang.text)) s vs rest ∧
      vs.length = signs := by
  induction signs generalizing s with
  | zero =>
      obtain ⟨rfl, hblank⟩ := tight_nil.mp ht
      have hhead : rest.head? ≠ some (CodePoint.ofChar '!') := by
        intro hhead
        have hmem := hrest _ hhead
        revert hmem
        decide
      have hsign : ctx.Reads 1 (.literal Token.bang.text) rest .mismatch :=
        .literal_mismatch (not_prefix_of_head hhead)
      exact ⟨[], .stop (reads_token_mismatch (Nat.le_refl 3) .nil
        hblank (hsign.mono (by omega))), rfl⟩
  | succ signs ih =>
      have hsplit : Tight ([.bang] ++ List.replicate signs .bang) s rest := ht
      obtain ⟨mid, ht₁, ht₂⟩ := hsplit.append
      obtain ⟨vs, hvs, hlength⟩ := ih ht₂
      have hsign := hctx.reads_sign .nil ht₁
      exact ⟨_ :: vs, .step hsign ht₁.length_lt hvs, by simp [hlength]⟩

theorem follows_closing (ht : Tight [.closing] s rest) : Follows Level.sums.followers s := by
  intro c hc
  cases ht with
  | cons =>
      rw [← Option.some.inj hc]
      exact List.mem_singleton_self _

theorem noDigit_of_follows
    (h : Follows (CodePoint.ofChar '!' :: Level.products.inside) rest) : NoDigit rest := by
  intro c hc
  have hmem := h c hc
  simp only [Level.inside, Level.operators, Level.followers, List.map_cons, List.map_nil,
    List.cons_append, List.nil_append, List.mem_cons, List.not_mem_nil, or_false] at hmem
  rcases hmem with rfl | rfl | rfl | rfl | rfl | rfl <;> decide

theorem reads_number_mismatch {w : Text} (hw : AreBlanks w) (hs : NoBlank s)
    (hrefuses : (number id : Node Action).refuses s.head? = true) :
    ctx.Reads 6 (token id (number id)) (w ++ s) .mismatch := by
  have hheight : (number id : Node Action).height ≤ 4 := by decide
  have hnumber : ctx.Reads 4 (number id) s .mismatch := .mono (.of_refuses hrefuses) hheight
  exact reads_token_mismatch (by omega) hw hs hnumber

theorem reads_atom (hctx : Computes ctx M embed)
    (hfactor : ∀ d < depth, Finds ctx M embed d (16 * d + 11) factorRef IsFactor
      Level.products.inside) :
    Finds ctx M embed depth (16 * depth + 7) atom IsAtom
      (CodePoint.ofChar '!' :: Level.products.inside) := by
  intro ks e z w s rest h hdepth hz hw ht hrest
  cases h with
  | @number digits valid =>
      have hnumber := hctx.reads_number hw ht (noDigit_of_follows hrest) hz
      exact .mono (.first hnumber) (by omega)
  | @group ks e he =>
      obtain ⟨x, hx, rfl⟩ := eval_group.mp hz
      rw [Expr.nesting] at hdepth
      have hsplit : Tight ([.opening] ++ (ks ++ [.closing])) s rest := ht
      obtain ⟨m₁, ht₁, ht⟩ := hsplit.append
      obtain ⟨m₂, ht₂, ht₃⟩ := ht.append
      have hopening := hctx.reads_sign hw ht₁
      have hclosing := hctx.reads_sign .nil ht₃
      have hinside := hctx.reads_expr (by omega) (hfactor e.nesting (by omega)) he
        (Nat.le_refl _) hx .nil ht₂ (follows_closing ht₃)
      have hgroup : ctx.Reads (16 * e.nesting + 22) (group id) (w ++ s) _ :=
        (Reads.sequence (.cons (hopening.mono (by omega)) (.cons hinside
          (.cons (hclosing.mono (by omega)) (ReadsAll.nil.mono (by omega)))))).action_value
            ((hctx.perform_group _ x _ _).mpr rfl)
      have hmiss : ctx.Reads 6 (token id (number id)) (w ++ s) .mismatch :=
        reads_number_mismatch hw ht₁.noBlank (by cases ht₁; rfl)
      exact .next (hmiss.mono (by omega)) (.first (hgroup.mono (by omega)))

theorem reads_negation_mismatch {w : Text} (hw : AreBlanks w) (hs : NoBlank s)
    (hhead : s.head? ≠ some (CodePoint.ofChar '-')) :
    ctx.Reads 7 negation (w ++ s) .mismatch := by
  have hliteral : ctx.Reads 1 (.literal (Token.operator .minus).text) s .mismatch :=
    .literal_mismatch (not_prefix_of_head hhead)
  have hminus : ctx.Reads 5 (token id (.literal (Token.operator .minus).text)) (w ++ s)
      .mismatch :=
    reads_token_mismatch (Nat.le_refl 3) hw hs (hliteral.mono (by omega))
  exact .action_mismatch (.sequence_mismatch (.here hminus))

theorem reads_factor (hctx : Computes ctx M embed) (depth : Nat) :
    Finds ctx M embed depth (16 * depth + 11) factorRef IsFactor Level.products.inside := by
  induction depth using Nat.strong_induction_on with
  | _ depth ih =>
      intro ks e z w s rest h hdepth hz hw ht hrest
      refine .placeholder hctx.target_factor ?_
      rw [factor_eq]
      cases h with
      | @negation ks e he =>
          obtain ⟨x, hx, rfl⟩ := eval_negate.mp hz
          rw [Expr.nesting] at hdepth
          have hsplit : Tight ([.operator .minus] ++ ks) s rest := ht
          obtain ⟨mid, ht₁, ht₂⟩ := hsplit.append
          have hminus := hctx.reads_sign hw ht₁
          have hinside := ih e.nesting (by omega) he (Nat.le_refl _) hx .nil ht₂ hrest
          have hnegation : ctx.Reads (16 * e.nesting + 13) negation (w ++ s) _ :=
            (Reads.sequence (.cons (hminus.mono (by omega)) (.cons hinside
              (ReadsAll.nil.mono (by omega))))).action_value
                ((hctx.perform_negation _ x _).mpr rfl)
          exact .first (hnegation.mono (by omega))
      | @postfixed ks e signs he =>
          rw [nesting_factorials] at hdepth
          rw [eval_factorials] at hz
          obtain ⟨x, hx, hz⟩ : ∃ x, e.eval M = .ok x ∧ M.factorials x signs = .ok z := by
            cases hx : e.eval M with
            | error err => rw [hx] at hz; cases hz
            | ok x => rw [hx] at hz; exact ⟨x, rfl, hz⟩
          obtain ⟨mid, ht₁, ht₂⟩ := ht.append
          have hatom := hctx.reads_atom ih he hdepth hx hw ht₁ (follows_bangs ht₂ hrest)
          obtain ⟨vs, hvs, rfl⟩ := hctx.reads_bangs ht₂ hrest
          have hpostfixed : ctx.Reads (16 * depth + 9) (postfixed id) (w ++ s)
              (.matched (embed z) rest) := by
            rw [postfixed_eq]
            exact (Reads.sequence (.cons hatom (.cons ((Reads.many hvs).mono (by omega))
              (ReadsAll.nil.mono (by omega))))).action_value
                ((hctx.perform_factorials x vs _).mpr ⟨z, hz, rfl⟩)
          have hnegation : ctx.Reads 7 negation (w ++ s) .mismatch :=
            reads_negation_mismatch hw ht₁.noBlank (he.head_ne_minus ht₁)
          exact .next (hnegation.mono (by omega)) (.first hpostfixed)

end Computes

end Peg.Calculator
