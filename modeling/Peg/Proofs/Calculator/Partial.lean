import Peg.Proofs.Calculator.Expression

/-!
# Reading expressions without a value

Where an operation has no value, the action that performs it makes its node fail, and the
grammar goes on from there as from any other failure. A factor without a value is no match.
A chain goes up to the last operand that can be read and stops in front of the operator
behind it; the operand itself may be a product that was read in part. Only when a chain has
been read as far as it goes are its operators applied, and then they can fail too.

So of an expression that has no value a part at its front may be read, or nothing, or an
error may be raised, and not always the one that its evaluation ends in. `Expr.part` tells
which, from the tree alone.
-/

namespace Peg.Calculator

open Context

variable {N : Type}

/-! ## Parts of an expression -/

/-- What the grammar makes of an expression. -/
inductive Part (N : Type) where
  /-- The value of the expression, or of a part at its front. -/
  | read (x : N)
  /-- The operators of a chain are applied and fail. -/
  | raises (err : ArithmeticError)
  /-- Not even the first factor is read. -/
  | nothing

def Part.ofValue : Except ArithmeticError N → Part N
  | .ok x => read x
  | .error _ => nothing

def Part.ofResult : Except ArithmeticError N → Part N
  | .ok x => read x
  | .error err => raises err

namespace Expr

/-- What the grammar makes of an expression, at the end of the text or in parentheses. An
operator is applied if something was read on its right, in full or in part. -/
def part (M : Meaning N) : Expr → Part N
  | binary o a b =>
    match a.eval M with
    | .error _ => a.part M
    | .ok x =>
      match b.part M with
      | .read y => .ofResult (M.binary o x y)
      | .raises _ | .nothing => .read x
  | e => .ofValue (e.eval M)

/-- The error is that of an operator along the chain which has the values of both of its
operands. -/
inductive FailsInChain (M : Meaning N) : Expr → ArithmeticError → Prop
  | here {o a b x y err} : a.eval M = .ok x → b.eval M = .ok y → M.binary o x y = .error err →
    FailsInChain M (.binary o a b) err
  | before {o a b err} : FailsInChain M a err → FailsInChain M (.binary o a b) err

variable {M : Meaning N} {e a b : Expr} {o : Operator} {x z : N} {err : ArithmeticError}

theorem eval_binary_error (h : a.eval M = .error err) : (binary o a b).eval M = .error err := by
  rw [eval, h]
  rfl

theorem eval_group_error : (group e).eval M = .error err ↔ e.eval M = .error err := by
  rw [eval]
  cases e.eval M <;> simp [Except.map]

theorem eval_negate_error : (negate e).eval M = .error err ↔ e.eval M = .error err := by
  rw [eval]
  cases e.eval M <;> simp [Except.map]

theorem part_binary_error (h : a.eval M = .error err) :
    (binary o a b).part M = a.part M := by
  rw [part, h]

theorem part_eq_read (h : e.eval M = .ok z) : e.part M = .read z := by
  induction e generalizing z with
  | binary o a b _ ihb =>
      obtain ⟨x, y, hx, hy, hz⟩ := eval_binary.mp h
      rw [part, hx, ihb hy]
      exact congrArg Part.ofResult hz
  | number _ | group _ _ | factorial _ _ | negate _ _ => exact congrArg Part.ofValue h

theorem FailsInChain.eval_eq (h : e.FailsInChain M err) : e.eval M = .error err := by
  induction h with
  | here hx hy hfails =>
      rw [eval, hx, hy]
      exact hfails
  | before _ ih => exact eval_binary_error ih

/-- Such an error is raised, whatever follows the operator. -/
theorem FailsInChain.part_eq (h : e.FailsInChain M err) : e.part M = .raises err := by
  induction h with
  | here hx hy hfails =>
      rw [part, hx, part_eq_read hy]
      exact congrArg Part.ofResult hfails
  | before ha ih =>
      rw [part_binary_error ha.eval_eq]
      exact ih

/-- Of an expression that is no chain everything is read or nothing. -/
theorem part_factorials (h : e.part M = .ofValue (e.eval M)) (k : Nat) :
    (e.factorials k).part M = .ofValue ((e.factorials k).eval M) := by
  induction k generalizing e with
  | zero => exact h
  | succ k ih => exact ih rfl

end Expr

theorem IsFactor.part_eq {ks : List Token} {e : Expr} (h : IsFactor ks e) (M : Meaning N) :
    e.part M = .ofValue (e.eval M) := by
  cases h with
  | negation _ => rfl
  | postfixed signs hatom =>
      refine Expr.part_factorials ?_ signs
      cases hatom with
      | number | group _ => rfl

theorem IsLinks.part_eq {M : Meaning N} {l : Level} {a e : Expr} {ls : List Token}
    {err : ArithmeticError} (h : IsLinks l a ls e) (ha : a.eval M = .error err) :
    e.eval M = .error err ∧ e.part M = a.part M := by
  induction h using IsLinks.induct with
  | nil => exact ⟨ha, rfl⟩
  | cons _ _ _ ih =>
      obtain ⟨heval, hpart⟩ := ih (Expr.eval_binary_error ha)
      exact ⟨heval, hpart.trans (Expr.part_binary_error ha)⟩

/-! ## Where the reading of a chain stops -/

/-- The operators in front of which the reading of an operand can stop. -/
def Level.below : Level → List Operator
  | sums => [.times, .divide]
  | products => []

/-- An expression with a value is read up to `rest`. What is read of one without a value ends
in front of one of the operators. -/
def Halts (M : Meaning N) (os : List Operator) (e : Expr) (rest mid : Text) : Prop :=
  (∃ x, e.eval M = .ok x) ∧ mid = rest ∨
    (∃ err, e.eval M = .error err) ∧ ∃ o ∈ os, ∃ s, mid = (Token.operator o).text ++ s

/-- The node reads what there is to read of the expression in front of `rest`. -/
def TakesPart (ctx : Context Action) (M : Meaning N) (embed : N → Value Action) (levels : Nat)
    (node : Node Action) (os : List Operator) (e : Expr) (t rest : Text) : Prop :=
  match e.part M with
  | .read x => ∃ mid, ctx.Reads levels node t (.matched (embed x) mid) ∧ Halts M os e rest mid
  | .raises _ | .nothing => ctx.Reads levels node t .mismatch

/-- With `levels` levels the node reads what there is to read of every tree of the given sort
that does not nest deeper than `depth`, where one of `followers` comes next. -/
def Takes (ctx : Context Action) (M : Meaning N) (embed : N → Value Action) (depth levels : Nat)
    (node : Node Action) (P : List Token → Expr → Prop) (followers : List CodePoint)
    (os : List Operator) : Prop :=
  ∀ {ks : List Token} {e : Expr} {w s rest : Text}, P ks e → e.nesting ≤ depth → AreBlanks w →
    Tight ks s rest → Follows followers rest → TakesPart ctx M embed levels node os e (w ++ s) rest

section Takes

variable {ctx : Context Action} {M : Meaning N} {embed : N → Value Action} {levels : Nat}
  {node : Node Action} {os : List Operator} {e : Expr} {s t rest mid : Text} {x : N}

theorem TakesPart.read (h : TakesPart ctx M embed levels node os e t rest)
    (hpart : e.part M = .read x) :
    ∃ mid, ctx.Reads levels node t (.matched (embed x) mid) ∧ Halts M os e rest mid := by
  rwa [TakesPart, hpart] at h

theorem TakesPart.mismatch (h : TakesPart ctx M embed levels node os e t rest)
    (hpart : ∀ x, e.part M ≠ .read x) : ctx.Reads levels node t .mismatch := by
  rw [TakesPart] at h
  cases hp : e.part M with
  | read x => exact absurd hp (hpart x)
  | raises err | nothing => rwa [hp] at h

theorem TakesPart.of_read (hpart : e.part M = .read x)
    (hread : ctx.Reads levels node t (.matched (embed x) mid)) (hhalts : Halts M os e rest mid) :
    TakesPart ctx M embed levels node os e t rest := by
  rw [TakesPart, hpart]
  exact ⟨mid, hread, hhalts⟩

theorem TakesPart.of_mismatch (hpart : ∀ x, e.part M ≠ .read x)
    (hread : ctx.Reads levels node t .mismatch) :
    TakesPart ctx M embed levels node os e t rest := by
  rw [TakesPart]
  cases hp : e.part M with
  | read x => exact absurd hp (hpart x)
  | raises err | nothing => exact hread

/-- A placeholder takes what its target takes. -/
theorem TakesPart.placeholder {id : Nat} {name : Value Action} {target : Node Action}
    (h : TakesPart ctx M embed levels target os e t rest)
    (ht : ctx.bindings.target? id = some target) :
    TakesPart ctx M embed (levels + 1) (.placeholder id name) os e t rest := by
  cases hp : e.part M with
  | read x =>
      obtain ⟨mid, hread, hhalts⟩ := h.read hp
      exact .of_read hp (.placeholder ht hread) hhalts
  | raises err | nothing =>
      exact .of_mismatch (by simp [hp]) (.placeholder ht (h.mismatch (by simp [hp])))

theorem error_of_part (hpart : ∀ x, e.part M ≠ .read x) : ∃ err, e.eval M = .error err := by
  cases heval : e.eval M with
  | ok x => exact absurd (Expr.part_eq_read heval) (hpart x)
  | error err => exact ⟨err, rfl⟩

end Takes

/-! ## Chains -/

/-- The links of a chain that were read, from the value `x` on: their operators give what is
made of the chain, and the reading halts where it should. -/
structure LinksPart (M : Meaning N) (l : Level) (x : N) (links : List (Operator × N)) (e : Expr)
    (rest mid : Text) : Prop where
  part_eq : e.part M = .ofResult (M.chain x links)
  halts : ∀ y, M.chain x links = .ok y → Halts M (l.operators ++ l.below) e rest mid

namespace LinksPart

variable {M : Meaning N} {l : Level} {a b e : Expr} {ls : List Token} {o o' : Operator} {x y : N}
  {links : List (Operator × N)} {err : ArithmeticError} {s rest mid : Text}

theorem nil (hx : a.eval M = .ok x) : LinksPart M l x [] a rest rest where
  part_eq := Expr.part_eq_read hx
  halts _ _ := .inl ⟨⟨x, hx⟩, rfl⟩

/-- An operand without a value stays unread, with the operator in front of it. -/
theorem stop (ho : o ∈ l.operators) (hlinks : IsLinks l (.binary o a b) ls e)
    (hx : a.eval M = .ok x) (hb : b.eval M = .error err) (hnot : ∀ y, b.part M ≠ .read y) :
    LinksPart M l x [] e rest ((Token.operator o).text ++ s) := by
  have heval : (Expr.binary o a b).eval M = .error err := by
    rw [Expr.eval, hx, hb]
    rfl
  obtain ⟨he, hpart_eq⟩ := hlinks.part_eq heval
  refine ⟨?_, fun _ _ => .inr ⟨⟨err, he⟩, o, List.mem_append_left _ ho, s, rfl⟩⟩
  rw [hpart_eq, Expr.part, hx]
  cases hpart : b.part M with
  | read y => exact absurd hpart (hnot y)
  | raises _ | nothing => rfl

/-- No link is read behind an operand that is read in part. -/
theorem last (ho' : o' ∈ l.below) (hlinks : IsLinks l (.binary o a b) ls e)
    (hx : a.eval M = .ok x) (hb : b.eval M = .error err) (hpart : b.part M = .read y) :
    LinksPart M l x [(o, y)] e rest ((Token.operator o').text ++ s) := by
  have heval : (Expr.binary o a b).eval M = .error err := by
    rw [Expr.eval, hx, hb]
    rfl
  have hchain : M.chain x [(o, y)] = M.binary o x y := by
    rw [Meaning.chain]
    cases M.binary o x y <;> rfl
  obtain ⟨he, hpart_eq⟩ := hlinks.part_eq heval
  refine ⟨?_, fun _ _ => .inr ⟨⟨err, he⟩, o', List.mem_append_right _ ho', s, rfl⟩⟩
  rw [hpart_eq, hchain, Expr.part, hx, hpart]

/-- Behind an operand with a value the reading goes on. Whether the operator in front of it
fails is found out when all the links have been read. -/
theorem cons (hlinks : IsLinks l (.binary o a b) ls e) (hx : a.eval M = .ok x)
    (hy : b.eval M = .ok y)
    (h : ∀ z, (Expr.binary o a b).eval M = .ok z → LinksPart M l z links e rest mid) :
    LinksPart M l x ((o, y) :: links) e rest mid := by
  cases hz : M.binary o x y with
  | ok z =>
      have hchain : M.chain x ((o, y) :: links) = M.chain z links := by
        rw [Meaning.chain, hz]
        rfl
      obtain ⟨hpart_eq, hhalts⟩ := h z (eval_binary.mpr ⟨x, y, hx, hy, hz⟩)
      exact ⟨by rw [hchain, hpart_eq], by rw [hchain]; exact hhalts⟩
  | error err =>
      have hchain : M.chain x ((o, y) :: links) = .error err := by
        rw [Meaning.chain, hz]
        rfl
      have hfails : (Expr.binary o a b).FailsInChain M err := .here hx hy hz
      refine ⟨?_, fun z hok => by rw [hchain] at hok; cases hok⟩
      rw [hchain, (hlinks.part_eq hfails.eval_eq).2, hfails.part_eq]
      rfl

end LinksPart

theorem operator_not_below {l : Level} {o : Operator} (h : o ∈ l.below) :
    o.sign ∉ l.operators.map Operator.sign := by
  cases l with
  | products => cases h
  | sums =>
      rcases (by simpa [Level.below] using h : o = .times ∨ o = .divide) with rfl | rfl <;> decide

namespace Computes

variable {ctx : Context Action} {M : Meaning N} {embed : N → Value Action} {depth levels : Nat}
  {l : Level}

/-- No link is read where the reading of an operand stopped within it. -/
theorem links_stop {o : Operator} (ho : o ∈ l.below) (hlevels : 5 ≤ levels) (s : Text) :
    ctx.ReadsMany (levels + 1) (.sequence [l.separator, l.operand])
      ((Token.operator o).text ++ s) [] ((Token.operator o).text ++ s) := by
  have hsign : ctx.Reads 5 l.separator ((Token.operator o).text ++ s) .mismatch :=
    reads_separator_mismatch (Token.noBlank _ _) fun c hc => by
      rw [← Option.some.inj hc]
      exact operator_not_below ho
  exact .stop (.sequence_mismatch (.here (hsign.mono hlevels)))

theorem reads_links_part {a e : Expr} {ls : List Token} {s rest : Text}
    (hctx : Computes ctx M embed) (hlevels : 5 ≤ levels)
    (hoperand : Takes ctx M embed depth levels l.operand (IsOperand l) l.inside l.below)
    (h : IsLinks l a ls e) (hdepth : e.nesting ≤ depth) (ht : Tight ls s rest)
    (hrest : Follows l.followers rest) :
    ∃ links mid, ctx.ReadsMany (levels + 1) (.sequence [l.separator, l.operand]) s
      (links.map (linkValue embed)) mid ∧
        ∀ x, a.eval M = .ok x → LinksPart M l x links e rest mid := by
  induction h using IsLinks.induct generalizing s with
  | nil =>
      obtain ⟨rfl, hblank⟩ := tight_nil.mp ht
      have hstop : ctx.Reads 5 l.separator rest .mismatch :=
        reads_separator_mismatch hblank fun c hc => l.followers_other (hrest c hc)
      exact ⟨[], rest, .stop (.sequence_mismatch (.here (hstop.mono hlevels))),
        fun x hx => .nil hx⟩
  | @cons o a b ks ls e ho hb hlinks ih =>
      have hle := hlinks.nesting_le
      rw [Expr.nesting] at hle
      have hsplit : Tight ([.operator o] ++ (ks ++ ls)) s rest := ht
      obtain ⟨m₁, ht₁, ht⟩ := hsplit.append
      obtain ⟨m₂, ht₂, ht₃⟩ := ht.append
      have hsign : ctx.Reads 5 l.separator s (.matched (.text [o.sign]) m₁) :=
        hctx.reads_operator ho ht₁
      have hright := hoperand hb (by omega) .nil ht₂ (hlinks.follows ht₃ hrest)
      cases hpart : b.part M with
      | read y =>
          obtain ⟨mid, hread, hhalts⟩ := hright.read hpart
          have hstep : ctx.Reads (levels + 1) (.sequence [l.separator, l.operand]) s
              (.matched (linkValue embed (o, y)) mid) :=
            .sequence (.cons (hsign.mono hlevels) (.cons hread (ReadsAll.nil.mono (by omega))))
          have hshorter : mid.length < s.length :=
            hread.matches.length_le.trans_lt ht₁.length_lt
          rcases hhalts with ⟨⟨u, hu⟩, rfl⟩ | ⟨⟨err, hfails⟩, o', ho', s', rfl⟩
          · obtain rfl : y = u := Part.read.inj (hpart.symm.trans (Expr.part_eq_read hu))
            obtain ⟨links, mid, hmany, hspec⟩ := ih hdepth ht₃
            exact ⟨(o, y) :: links, mid, .step hstep hshorter hmany,
              fun x hx => .cons hlinks hx hu hspec⟩
          · exact ⟨[(o, y)], _, .step hstep hshorter (links_stop ho' hlevels s'),
              fun x hx => .last ho' hlinks hx hfails hpart⟩
      | raises _ | nothing =>
          have hnot : ∀ y, b.part M ≠ .read y := by simp [hpart]
          obtain ⟨err, hfails⟩ := error_of_part hnot
          have hstop : ctx.Reads (levels + 1) (.sequence [l.separator, l.operand]) s .mismatch :=
            .sequence_mismatch (.later (hsign.mono hlevels) (.here (hright.mismatch hnot)))
          refine ⟨[], s, .stop hstop, fun x hx => ?_⟩
          cases ht₁ with
          | cons => exact .stop ho hlinks hx hfails hnot

/-- The item of a chain reads a first operand and links, or there is no first operand that
could be read. What the first operand is made of decides in the second case. -/
theorem reads_chain_items {ks : List Token} {e : Expr} {w s rest : Text}
    (hctx : Computes ctx M embed) (hlevels : 5 ≤ levels)
    (hoperand : Takes ctx M embed depth levels l.operand (IsOperand l) l.inside l.below)
    (h : IsChain l ks e) (hdepth : e.nesting ≤ depth) (hw : AreBlanks w) (ht : Tight ks s rest)
    (hrest : Follows l.followers rest) :
    (∃ x links mid, ctx.Reads (levels + 3) (l.operand.alternating l.separator) (w ++ s)
        (.matched (.tuple [embed x, .list (links.map (linkValue embed))]) mid) ∧
      LinksPart M l x links e rest mid) ∨
    ∃ ks' a rest', IsOperand l ks' a ∧ a.nesting ≤ depth ∧ Tight ks' s rest' ∧
      Follows l.inside rest' ∧ e.part M = a.part M ∧ (∀ x, a.part M ≠ .read x) ∧
      ctx.Reads levels l.operand (w ++ s) .mismatch := by
  cases h with
  | @intro _ ks ls a _ ha hlinks =>
      obtain ⟨m₁, ht₁, ht₂⟩ := ht.append
      have hle := hlinks.nesting_le
      have hfollows := hlinks.follows ht₂ hrest
      have hfirst := hoperand ha (by omega) hw ht₁ hfollows
      have hitems : ∀ {x : N} {links : List (Operator × N)} {m mid : Text},
          ctx.Reads levels l.operand (w ++ s) (.matched (embed x) m) →
          ctx.ReadsMany (levels + 1) (.sequence [l.separator, l.operand]) m
            (links.map (linkValue embed)) mid →
          ctx.Reads (levels + 3) (l.operand.alternating l.separator) (w ++ s)
            (.matched (.tuple [embed x, .list (links.map (linkValue embed))]) mid) :=
        fun hread hmany => .sequence (.cons (hread.mono (by omega)) (.cons (.many hmany)
          (ReadsAll.nil.mono (by omega))))
      cases hpart : a.part M with
      | read x =>
          obtain ⟨m, hread, hhalts⟩ := hfirst.read hpart
          rcases hhalts with ⟨⟨u, hu⟩, rfl⟩ | ⟨⟨err, hfails⟩, o, ho, s', rfl⟩
          · obtain rfl : x = u := Part.read.inj (hpart.symm.trans (Expr.part_eq_read hu))
            obtain ⟨links, mid, hmany, hspec⟩ :=
              hctx.reads_links_part hlevels hoperand hlinks hdepth ht₂ hrest
            exact .inl ⟨x, links, mid, hitems hread hmany, hspec x hu⟩
          · obtain ⟨he, hpart_eq⟩ := hlinks.part_eq hfails
            refine .inl ⟨x, [], _, hitems hread (links_stop ho hlevels s'), hpart_eq.trans hpart,
              ?_⟩
            exact fun _ _ => .inr ⟨⟨err, he⟩, o, List.mem_append_right _ ho, s', rfl⟩
      | raises _ | nothing =>
          have hnot : ∀ x, a.part M ≠ .read x := by simp [hpart]
          obtain ⟨err, hfails⟩ := error_of_part hnot
          exact .inr ⟨ks, a, m₁, ha, by omega, ht₁, hfollows, (hlinks.part_eq hfails).2, hnot,
            hfirst.mismatch hnot⟩

theorem reads_chain_part (hctx : Computes ctx M embed)
    (hplain : ∀ act v, (ctx.perform act v).IsPlain) (hlevels : 5 ≤ levels)
    (hoperand : Takes ctx M embed depth levels l.operand (IsOperand l) l.inside l.below) :
    Takes ctx M embed depth (levels + 4) l.node (IsChain l) l.followers
      (l.operators ++ l.below) := by
  intro ks e w s rest h hdepth hw ht hrest
  rcases hctx.reads_chain_items hlevels hoperand h hdepth hw ht hrest with
    ⟨x, links, mid, hitems, hpart, hhalts⟩ | ⟨_, a, _, _, _, _, _, hpart, hnot, hmiss⟩
  · cases hchain : M.chain x links with
    | ok y =>
        rw [hchain] at hpart
        exact .of_read hpart
          (hitems.action_value ((hctx.perform_chain x links _).mpr ⟨y, hchain, rfl⟩))
          (hhalts y hchain)
    | error err =>
        rw [hchain] at hpart
        refine .of_mismatch (by simp [hpart, Part.ofResult])
          (hitems.action_refuses (hplain _ _) fun v hv => ?_)
        obtain ⟨y, hy, -⟩ := (hctx.perform_chain x links v).mp hv
        cases hchain.symm.trans hy
  · refine .of_mismatch (by rwa [hpart]) (.action_mismatch ?_)
    exact (Reads.sequence_mismatch (.here hmiss)).mono (by omega)

theorem takes_products
    (hfactor : Takes ctx M embed depth levels factorRef IsFactor Level.products.inside []) :
    Takes ctx M embed depth levels Level.products.operand (IsOperand .products)
      Level.products.inside Level.products.below := by
  intro ks e w s rest h
  cases h with
  | factor h => exact hfactor h

theorem takes_sums (hctx : Computes ctx M embed)
    (hplain : ∀ act v, (ctx.perform act v).IsPlain) (hlevels : 5 ≤ levels)
    (hfactor : Takes ctx M embed depth levels factorRef IsFactor Level.products.inside []) :
    Takes ctx M embed depth (levels + 4) Level.sums.operand (IsOperand .sums) Level.sums.inside
      Level.sums.below := by
  intro ks e w s rest h
  cases h with
  | term h => exact hctx.reads_chain_part hplain hlevels (takes_products hfactor) h

theorem reads_expr_part (hctx : Computes ctx M embed)
    (hplain : ∀ act v, (ctx.perform act v).IsPlain) (hlevels : 5 ≤ levels)
    (hfactor : Takes ctx M embed depth levels factorRef IsFactor Level.products.inside []) :
    Takes ctx M embed depth (levels + 9) exprRef (IsChain .sums) Level.sums.followers
      (Level.sums.operators ++ Level.sums.below) := by
  intro ks e w s rest h hdepth hw ht hrest
  exact .placeholder (hctx.reads_chain_part hplain (by omega)
    (hctx.takes_sums hplain hlevels hfactor) h hdepth hw ht hrest) hctx.target_expr

end Computes

/-! ## Factors -/

namespace Computes

variable {ctx : Context Action} {M : Meaning N} {embed : N → Value Action} {depth : Nat}
  {w s rest : Text}

/-- A choice between two nodes fails if both of them do. -/
theorem reads_neither {levels : Nat} {n m : Node Action} {t : Text}
    (hn : ctx.Reads levels n t .mismatch) (hm : ctx.Reads levels m t .mismatch) :
    ctx.Reads (levels + 1) (.choice [n, m]) t .mismatch :=
  .choice_mismatch (by simp [hn, hm])

theorem reads_group_mismatch (hw : AreBlanks w) (hs : NoBlank s)
    (hhead : s.head? ≠ some (CodePoint.ofChar '(')) :
    ctx.Reads 7 (group id) (w ++ s) .mismatch := by
  have hliteral : ctx.Reads 1 (.literal Token.opening.text) s .mismatch :=
    .literal_mismatch (not_prefix_of_head hhead)
  have hopening : ctx.Reads 5 (token id (.literal Token.opening.text)) (w ++ s) .mismatch :=
    reads_token_mismatch (Nat.le_refl 3) hw hs (hliteral.mono (by omega))
  exact .action_mismatch (.sequence_mismatch (.here hopening))

theorem reads_postfixed_mismatch {levels : Nat} {t : Text}
    (h : ctx.Reads levels atom t .mismatch) : ctx.Reads (levels + 2) (postfixed id) t .mismatch :=
  .action_mismatch (.sequence_mismatch (.here h))

/-- A numeral has no value if it is too long. -/
theorem reads_numeral_mismatch {digits : Text} {valid : IsNumeral digits} {err : ArithmeticError}
    (hctx : Computes ctx M embed) (hplain : ∀ act v, (ctx.perform act v).IsPlain)
    (herr : M.number digits = .error err) (hw : AreBlanks w)
    (ht : Tight [.numeral digits valid] s rest) (hrest : NoDigit rest) :
    ctx.Reads 8 atom (w ++ s) .mismatch := by
  obtain ⟨c, hc, hdigit⟩ := ht.head_numeral
  have hopening : s.head? ≠ some (CodePoint.ofChar '(') := by
    intro hhead
    rw [Option.some.inj (hc.symm.trans hhead)] at hdigit
    exact absurd hdigit (by decide)
  have hnumber : ctx.Reads 4 (number id) s .mismatch := by
    cases ht with
    | @cons _ _ w₂ _ _ hw₂ hmid =>
        obtain ⟨rfl, -⟩ := tight_nil.mp hmid
        obtain ⟨c, t, rfl, hraw⟩ := reads_digits ctx valid hw₂ hrest
        refine hraw.action_refuses (hplain _ _) fun v hv => ?_
        obtain ⟨x, hx, -⟩ := (hctx.perform_number c t v).mp hv
        cases herr.symm.trans hx
  have htoken : ctx.Reads 6 (token id (number id)) (w ++ s) .mismatch :=
    reads_token_mismatch (by omega) hw ht.noBlank hnumber
  exact reads_neither (htoken.mono (by omega)) (reads_group_mismatch hw ht.noBlank hopening)

/-- Of a group whose expression has no value a part can be read, but no parenthesis closes
it. -/
theorem reads_group_unclosed {ks : List Token} {e : Expr} {err : ArithmeticError}
    (hctx : Computes ctx M embed) (hplain : ∀ act v, (ctx.perform act v).IsPlain)
    (hfactor : Takes ctx M embed e.nesting (16 * e.nesting + 12) factorRef IsFactor
      Level.products.inside [])
    (he : IsChain .sums ks e) (herr : e.eval M = .error err) (hw : AreBlanks w)
    (ht : Tight ([.opening] ++ (ks ++ [.closing])) s rest) :
    ctx.Reads (16 * e.nesting + 24) atom (w ++ s) .mismatch := by
  obtain ⟨m₁, ht₁, ht⟩ := ht.append
  obtain ⟨m₂, ht₂, ht₃⟩ := ht.append
  have hopening := hctx.reads_sign hw ht₁
  have hinside := hctx.reads_expr_part hplain (by omega) hfactor he (Nat.le_refl _) .nil ht₂
    (follows_closing ht₃)
  have hgroup : ctx.Reads (16 * e.nesting + 23) (group id) (w ++ s) .mismatch := by
    refine .action_mismatch (.sequence_mismatch (.later (hopening.mono (by omega)) ?_))
    cases hpart : e.part M with
    | read x =>
        obtain ⟨mid, hread, ⟨⟨y, hy⟩, -⟩ | ⟨-, o, -, s', rfl⟩⟩ := hinside.read hpart
        · cases herr.symm.trans hy
        · have hother : o.sign ≠ CodePoint.ofChar ')' := by cases o <;> decide
          have hliteral : ctx.Reads 1 (.literal Token.closing.text)
              ((Token.operator o).text ++ s') .mismatch :=
            .literal_mismatch (not_prefix_of_head fun hhead => hother (Option.some.inj hhead))
          have hclosing : ctx.Reads 5 (token id (.literal Token.closing.text))
              ([] ++ ((Token.operator o).text ++ s')) .mismatch :=
            reads_token_mismatch (Nat.le_refl 3) .nil (Token.noBlank _ _)
              (hliteral.mono (by omega))
          exact .later hread (.here (hclosing.mono (by omega)))
    | raises _ | nothing => exact .here (hinside.mismatch (by simp [hpart]))
  have hnumber : ctx.Reads 6 (token id (number id)) (w ++ s) .mismatch :=
    reads_number_mismatch hw ht₁.noBlank (by cases ht₁; rfl)
  exact reads_neither (hnumber.mono (by omega)) hgroup

theorem reads_atom_mismatch {ks : List Token} {e : Expr} {err : ArithmeticError}
    (hctx : Computes ctx M embed) (hplain : ∀ act v, (ctx.perform act v).IsPlain)
    (hfactor : ∀ d < depth, Takes ctx M embed d (16 * d + 12) factorRef IsFactor
      Level.products.inside [])
    (h : IsAtom ks e) (hdepth : e.nesting ≤ depth) (herr : e.eval M = .error err)
    (hw : AreBlanks w) (ht : Tight ks s rest)
    (hrest : Follows (CodePoint.ofChar '!' :: Level.products.inside) rest) :
    ctx.Reads (16 * depth + 8) atom (w ++ s) .mismatch := by
  cases h with
  | number =>
      exact (hctx.reads_numeral_mismatch hplain herr hw ht (noDigit_of_follows hrest)).mono
        (by omega)
  | @group ks e he =>
      rw [Expr.nesting] at hdepth
      exact (hctx.reads_group_unclosed hplain (hfactor e.nesting (by omega)) he
        (Expr.eval_group_error.mp herr) hw ht).mono (by omega)

/-- A negation whose factor has no value fails, and its sign is no beginning of an atom. -/
theorem reads_negated_mismatch {levels : Nat} {mid : Text} (hctx : Computes ctx M embed)
    (hlevels : 7 ≤ levels) (hw : AreBlanks w) (ht : Tight [.operator .minus] s mid)
    (hinside : ctx.Reads levels factorRef mid .mismatch) :
    ctx.Reads (levels + 4) (factor id) (w ++ s) .mismatch := by
  have hminus := hctx.reads_sign hw ht
  have hhead : s.head? = some (CodePoint.ofChar '-') := by cases ht; rfl
  have hnegation : ctx.Reads (levels + 2) negation (w ++ s) .mismatch :=
    .action_mismatch (.sequence_mismatch (.later (hminus.mono (by omega)) (.here hinside)))
  have hnumber : ctx.Reads 6 (token id (number id)) (w ++ s) .mismatch :=
    reads_number_mismatch hw ht.noBlank (by rw [hhead]; decide)
  have hgroup : ctx.Reads 7 (group id) (w ++ s) .mismatch :=
    reads_group_mismatch hw ht.noBlank (by rw [hhead]; decide)
  have hatom : ctx.Reads 8 atom (w ++ s) .mismatch := reads_neither (hnumber.mono (by omega)) hgroup
  have hpostfixed : ctx.Reads 10 (postfixed id) (w ++ s) .mismatch := reads_postfixed_mismatch hatom
  rw [factor_eq]
  exact reads_neither (hnegation.mono (by omega)) (hpostfixed.mono (by omega))

/-- An atom with signs behind it has no value if the atom has none, or if the action on its
value fails. -/
theorem reads_factorials_mismatch {ks : List Token} {e : Expr} {signs : Nat}
    {err : ArithmeticError} (hctx : Computes ctx M embed)
    (hplain : ∀ act v, (ctx.perform act v).IsPlain)
    (hfactor : ∀ d < depth, Takes ctx M embed d (16 * d + 12) factorRef IsFactor
      Level.products.inside [])
    (h : IsAtom ks e) (hdepth : e.nesting ≤ depth)
    (herr : (e.factorials signs).eval M = .error err) (hw : AreBlanks w)
    (ht : Tight (ks ++ List.replicate signs .bang) s rest)
    (hrest : Follows Level.products.inside rest) :
    ctx.Reads (16 * depth + 10) (postfixed id) (w ++ s) .mismatch := by
  obtain ⟨mid, ht₁, ht₂⟩ := ht.append
  have hfollows := follows_bangs ht₂ hrest
  rw [eval_factorials] at herr
  cases hx : e.eval M with
  | error err' =>
      exact reads_postfixed_mismatch
        (hctx.reads_atom_mismatch hplain hfactor h hdepth hx hw ht₁ hfollows)
  | ok x =>
      have hatom := hctx.reads_atom (fun d _ => hctx.reads_factor d) h hdepth hx hw ht₁ hfollows
      obtain ⟨vs, hvs, rfl⟩ := hctx.reads_bangs ht₂ hrest
      have hitems : ctx.Reads (16 * depth + 8)
          (.sequence [atom, .many (token id (.literal Token.bang.text))]) (w ++ s)
          (.matched (.tuple [embed x, .list vs]) rest) :=
        .sequence (.cons hatom (.cons ((Reads.many hvs).mono (by omega))
          (ReadsAll.nil.mono (by omega))))
      rw [hx] at herr
      rw [postfixed_eq]
      refine (hitems.action_refuses (hplain _ _) fun v hv => ?_).mono (by omega)
      obtain ⟨y, hy, -⟩ := (hctx.perform_factorials x vs v).mp hv
      cases herr.symm.trans hy

/-- A factor is read if it has a value, and otherwise not at all. -/
theorem takes_factor (hctx : Computes ctx M embed)
    (hplain : ∀ act v, (ctx.perform act v).IsPlain) (depth : Nat) :
    Takes ctx M embed depth (16 * depth + 12) factorRef IsFactor Level.products.inside [] := by
  induction depth using Nat.strong_induction_on with
  | _ depth ih =>
      intro ks e w s rest h hdepth hw ht hrest
      cases heval : e.eval M with
      | ok z =>
          have hread := hctx.reads_factor depth h hdepth heval hw ht hrest
          exact .of_read (Expr.part_eq_read heval) (hread.mono (by omega))
            (.inl ⟨⟨z, heval⟩, rfl⟩)
      | error err =>
          have hnot : ∀ x, e.part M ≠ .read x := by simp [h.part_eq M, heval, Part.ofValue]
          refine .of_mismatch hnot (.placeholder hctx.target_factor ?_)
          cases h with
          | @negation ks e he =>
              have herr : e.eval M = .error err := Expr.eval_negate_error.mp heval
              rw [Expr.nesting] at hdepth
              have hsplit : Tight ([.operator .minus] ++ ks) s rest := ht
              obtain ⟨mid, ht₁, ht₂⟩ := hsplit.append
              have hinside := (ih e.nesting (by omega) he (Nat.le_refl _) .nil ht₂ hrest).mismatch
                (by simp [he.part_eq M, herr, Part.ofValue])
              have hnegated := hctx.reads_negated_mismatch (by omega) hw ht₁ hinside
              exact hnegated.mono (by omega)
          | postfixed signs he =>
              rw [nesting_factorials] at hdepth
              obtain ⟨mid, ht₁, -⟩ := ht.append
              have hnegation : ctx.Reads 7 negation (w ++ s) .mismatch :=
                reads_negation_mismatch hw ht₁.noBlank (he.head_ne_minus ht₁)
              have hpostfixed :=
                hctx.reads_factorials_mismatch hplain ih he hdepth heval hw ht hrest
              exact reads_neither (hnegation.mono (by omega)) hpostfixed

end Computes

end Peg.Calculator
