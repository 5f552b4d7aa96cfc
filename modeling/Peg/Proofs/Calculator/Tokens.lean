import Peg.Calculator.Grammar
import Peg.Proofs.Calculator.Syntax
import Peg.Proofs.Lookahead

/-!
# Reading the tokens of an expression

A token is read together with the blanks on both of its sides, so between two tokens
the first one takes all the blanks. `Tight` describes a text at the places where the
grammar looks at it: every token has its blanks behind it, and none are left in front.

All this is said for any meaning of the constructs that the actions compute.
-/

namespace Peg.Calculator

open Context

variable {N : Type}

/-! ## Actions that compute a meaning -/

/-- An operator with its right operand, as the grammar gives it to an action. -/
def linkValue (embed : N → Value Action) (link : Operator × N) : Value Action :=
  .tuple [.text [link.1.sign], embed link.2]

/-- The actions compute the meaning of the constructs, the values of which `embed` makes
values of the grammar. -/
structure Computes (ctx : Context Action) (M : Meaning N) (embed : N → Value Action) : Prop where
  bindings : ctx.bindings = context.bindings
  perform_token : ∀ a v b w, ctx.perform .token (.tuple [a, v, b]) = .value w ↔ w = v
  perform_number : ∀ c t w,
    ctx.perform .number (.tuple [.text [c], .list (t.map fun d => .text [d])]) = .value w ↔
      ∃ x, M.number (c :: t) = .ok x ∧ w = embed x
  perform_group : ∀ a x b w, ctx.perform .group (.tuple [a, embed x, b]) = .value w ↔
    w = embed (M.group x)
  perform_factorials : ∀ x vs w, ctx.perform .factorials (.tuple [embed x, .list vs]) = .value w ↔
    ∃ y, M.factorials x vs.length = .ok y ∧ w = embed y
  perform_negation : ∀ a x w, ctx.perform .negation (.tuple [a, embed x]) = .value w ↔
    w = embed (M.negate x)
  perform_chain : ∀ x links w,
    ctx.perform .chain (.tuple [embed x, .list (links.map (linkValue embed))]) = .value w ↔
      ∃ y, M.chain x links = .ok y ∧ w = embed y

variable {ctx : Context Action} {M : Meaning N} {embed : N → Value Action} {s rest t : Text}
  {v : Value Action}

/-! ## Blanks -/

/-- The text goes on with one of the code points, or not at all. -/
def Follows (cs : List CodePoint) (s : Text) : Prop := ∀ c, s.head? = some c → c ∈ cs

/-- The text does not go on with a blank. -/
abbrev NoBlank (s : Text) : Prop := EndsRun (· ∈ blankPoints) s

theorem blanks_eq : (blanks : Node Action) = .many (.oneOf blankPoints) := rfl

theorem matches_blanks (h : ctx.Matches blanks s v rest) : ∃ w, s = w ++ rest ∧ AreBlanks w := by
  rw [blanks_eq] at h
  exact h.run_oneOf

theorem reads_blanks (ctx : Context Action) {w : Text} (hw : AreBlanks w) (hs : NoBlank s) :
    ∃ v, ctx.Reads 3 blanks (w ++ s) (.matched v s) := by
  rw [blanks_eq]
  exact Reads.run_oneOf hw hs

/-! ## Tokens -/

theorem Spells.append {ks ls : List Token} {u : Text} (ht : Spells ks t) (hu : Spells ls u) :
    Spells (ks ++ ls) (t ++ u) := by
  induction ht with
  | nil => exact hu
  | @cons k ks w₁ w₂ t hw₁ hw₂ _ ih =>
      have hcons := Spells.cons (k := k) hw₁ hw₂ ih
      simpa only [List.append_assoc, List.cons_append] using hcons

theorem Spells.token {k : Token} {w₁ w₂ : Text} (hw₁ : AreBlanks w₁) (hw₂ : AreBlanks w₂) :
    Spells [k] (w₁ ++ (k.text ++ w₂)) := by
  have hcons := Spells.cons (k := k) hw₁ hw₂ .nil
  rwa [List.append_nil] at hcons

theorem IsNumeral.cons {c : CodePoint} (hc : c.isDigit = true) (ht : AreDigits t) :
    IsNumeral (c :: t) :=
  ⟨List.cons_ne_nil c t, IsRun.cons hc ht⟩

theorem noDigit_after_blanks {w : Text} (hs : NoDigit s) (hw : AreBlanks w) :
    NoDigit (w ++ s) := by
  refine hs.after hw fun c hc => ?_
  simp only [blankPoints, List.mem_cons, List.not_mem_nil, or_false] at hc
  rcases hc with rfl | rfl <;> decide

/-- Every token begins with a code point that is no blank. -/
theorem Token.head (k : Token) : ∃ c u, k.text = c :: u ∧ c ∉ blankPoints := by
  cases k with
  | numeral digits valid =>
      obtain ⟨c, u, rfl⟩ := List.exists_cons_of_ne_nil valid.1
      refine ⟨c, u, rfl, fun hc => ?_⟩
      have hdigit := valid.2 c (by simp)
      simp only [blankPoints, List.mem_cons, List.not_mem_nil, or_false] at hc
      rcases hc with rfl | rfl <;> exact absurd hdigit (by decide)
  | operator o => cases o <;> exact ⟨_, _, rfl, by decide⟩
  | bang | opening | closing => exact ⟨_, _, rfl, by decide⟩

namespace Computes

theorem matches_token {item : Node Action} (hctx : Computes ctx M embed)
    (h : ctx.Matches (token id item) s v rest) :
    ∃ w₁ m w₂, AreBlanks w₁ ∧ AreBlanks w₂ ∧ s = w₁ ++ m ∧
      ctx.Matches item m v (w₂ ++ rest) := by
  obtain ⟨raw, hraw, hact⟩ := h.action
  obtain ⟨_, rfl, a, m₁, _, rfl, ha, b, m₂, _, rfl, hb, c, m₃, _, rfl, hc, rfl, rfl⟩ :=
    hraw.sequence
  obtain ⟨w₁, rfl, hw₁⟩ := matches_blanks ha
  obtain ⟨w₂, rfl, hw₂⟩ := matches_blanks hc
  obtain rfl := (hctx.perform_token a b c v).mp hact
  exact ⟨w₁, m₁, w₂, hw₁, hw₂, rfl, hb⟩

theorem matches_sign (hctx : Computes ctx M embed) (k : Token)
    (h : ctx.Matches (token id (.literal k.text)) s v rest) :
    ∃ t, s = t ++ rest ∧ Spells [k] t := by
  obtain ⟨w₁, m, w₂, hw₁, hw₂, rfl, hitem⟩ := hctx.matches_token h
  obtain ⟨-, rfl⟩ := hitem.literal
  exact ⟨_, by simp only [List.append_assoc], .token hw₁ hw₂⟩

theorem matches_operator (hctx : Computes ctx M embed) {os : List Operator}
    (h : ctx.Matches (token id (.oneOf (os.map Operator.sign))) s v rest) :
    ∃ t, ∃ o ∈ os, s = t ++ rest ∧ Spells [.operator o] t ∧ v = .text [o.sign] := by
  obtain ⟨w₁, m, w₂, hw₁, hw₂, rfl, hitem⟩ := hctx.matches_token h
  obtain ⟨c, rfl, hc, rfl⟩ := hitem.oneOf
  obtain ⟨o, ho, rfl⟩ := List.mem_map.mp hc
  exact ⟨_, o, ho, by simp only [List.append_assoc]; rfl, .token (k := .operator o) hw₁ hw₂, rfl⟩

theorem matches_digit (s : Text) (v : Value Action) (rest : Text)
    (h : ctx.Matches (.charRange (CodePoint.ofChar '0') (CodePoint.ofChar '9')) s v rest) :
    ∃ c, s = c :: rest ∧ c.isDigit = true ∧ v = .text [c] := by
  obtain ⟨c, rfl, rfl, hlow, hhigh⟩ := h.range
  exact ⟨c, rfl, CodePoint.isDigit_iff.mpr ⟨Int.ofNat_le.mp hlow, Int.ofNat_le.mp hhigh⟩, rfl⟩

theorem matches_number (hctx : Computes ctx M embed)
    (h : ctx.Matches (token id (number id)) s v rest) :
    ∃ t digits valid x, s = t ++ rest ∧ Spells [.numeral digits valid] t ∧
      M.number digits = .ok x ∧ v = embed x := by
  obtain ⟨w₁, m, w₂, hw₁, hw₂, rfl, hitem⟩ := hctx.matches_token h
  obtain ⟨raw, hraw, hact⟩ := hitem.action
  obtain ⟨_, rfl, a, m₁, _, rfl, ha, b, m₂, _, rfl, hb, rfl, hrest⟩ := hraw.sequence
  obtain ⟨c, rfl, hc, rfl⟩ := matches_digit _ _ _ ha
  obtain ⟨vs, rfl, hvs⟩ := hb.many
  obtain ⟨t, rfl, ht, rfl⟩ := hvs.run matches_digit
  obtain ⟨x, hx, rfl⟩ := (hctx.perform_number c t v).mp hact
  refine ⟨w₁ ++ ((c :: t) ++ w₂), c :: t, .cons hc ht, x, ?_, .token hw₁ hw₂, hx, rfl⟩
  rw [← hrest]
  simp

end Computes

/-! ## Texts without blanks in front -/

/-- The text begins with the tokens, each with the blanks after it, and goes on with
`rest`. No blanks are left in front of a token or of `rest`. -/
inductive Tight : List Token → Text → Text → Prop
  | nil {rest : Text} : NoBlank rest → Tight [] rest rest
  | cons {k : Token} {ks : List Token} {w mid rest : Text} : AreBlanks w → Tight ks mid rest →
    Tight (k :: ks) (k.text ++ (w ++ mid)) rest

theorem Token.noBlank (k : Token) (s : Text) : NoBlank (k.text ++ s) := by
  obtain ⟨c, u, hk, hc⟩ := k.head
  rw [hk]
  exact .cons hc

theorem Tight.noBlank {ks : List Token} (h : Tight ks s rest) : NoBlank s := by
  cases h with
  | nil hrest => exact hrest
  | cons => exact Token.noBlank _ _

theorem tight_nil : Tight [] s rest ↔ rest = s ∧ NoBlank s := by
  constructor
  · intro h
    cases h with
    | nil hrest => exact ⟨rfl, hrest⟩
  · rintro ⟨rfl, hrest⟩
    exact .nil hrest

theorem Tight.append {ks ls : List Token} (h : Tight (ks ++ ls) s rest) :
    ∃ mid, Tight ks s mid ∧ Tight ls mid rest := by
  induction ks generalizing s with
  | nil => exact ⟨s, .nil h.noBlank, h⟩
  | cons k ks ih =>
      cases h with
      | cons hw h =>
          obtain ⟨mid, hks, hls⟩ := ih h
          exact ⟨mid, .cons hw hks, hls⟩

theorem Tight.length_le {ks : List Token} (h : Tight ks s rest) : rest.length ≤ s.length := by
  induction h with
  | nil => exact Nat.le_refl _
  | cons _ _ ih =>
      simp only [List.length_append]
      omega

theorem Tight.length_lt {k : Token} {ks : List Token} (h : Tight (k :: ks) s rest) :
    rest.length < s.length := by
  cases h with
  | cons _ h =>
      obtain ⟨c, u, hk, -⟩ := k.head
      have hle := h.length_le
      simp only [hk, List.length_append, List.length_cons]
      omega

theorem Tight.head_numeral {digits : Text} {valid : IsNumeral digits} {ks : List Token}
    (h : Tight (.numeral digits valid :: ks) s rest) :
    ∃ c, s.head? = some c ∧ c.isDigit = true := by
  cases h with
  | cons =>
      obtain ⟨c, t, rfl⟩ := List.exists_cons_of_ne_nil valid.1
      exact ⟨c, rfl, valid.2 c List.mem_cons_self⟩

/-- The blanks in front of the first token can be taken off, and every other blank be
given to the token before it. -/
theorem Spells.tight {ks : List Token} (h : Spells ks t) (hrest : NoBlank rest) :
    ∃ w s, t ++ rest = w ++ s ∧ AreBlanks w ∧ Tight ks s rest := by
  induction h with
  | nil => exact ⟨[], rest, rfl, .nil, .nil hrest⟩
  | @cons k ks w₁ w₂ t hw₁ hw₂ _ ih =>
      obtain ⟨w, s, heq, hw, hs⟩ := ih
      refine ⟨w₁, k.text ++ ((w₂ ++ w) ++ s), ?_, hw₁, .cons (hw₂.append hw) hs⟩
      simp only [List.append_assoc, heq]

/-- A numeral is read digit by digit. -/
theorem reads_digits (ctx : Context Action) {digits w : Text} (valid : IsNumeral digits)
    (hw : AreBlanks w) (hrest : NoDigit rest) :
    ∃ c t, digits = c :: t ∧
      ctx.Reads 3 (.oneOrMore (.charRange (CodePoint.ofChar '0') (CodePoint.ofChar '9')))
        (digits ++ (w ++ rest))
        (.matched (.tuple [.text [c], .list (t.map fun d => .text [d])]) (w ++ rest)) := by
  obtain ⟨c, t, rfl⟩ := List.exists_cons_of_ne_nil valid.1
  have hdigit : ∀ d : CodePoint, d.isDigit = true → ∀ s : Text,
      ctx.Reads 1 (.charRange (CodePoint.ofChar '0') (CodePoint.ofChar '9')) (d :: s)
        (.matched (.text [d]) s) := by
    intro d hd s
    obtain ⟨hlow, hhigh⟩ := CodePoint.isDigit_iff.mp hd
    exact .range (Int.ofNat_le.mpr hlow) (Int.ofNat_le.mpr hhigh)
  have hend : ctx.Reads 1 (.charRange (CodePoint.ofChar '0') (CodePoint.ofChar '9'))
      (w ++ rest) .mismatch := by
    refine .range_mismatch fun d hd ⟨hlow, hhigh⟩ => ?_
    exact noDigit_after_blanks hrest hw d hd
      (CodePoint.isDigit_iff.mpr ⟨Int.ofNat_le.mp hlow, Int.ofNat_le.mp hhigh⟩)
  have ht : AreDigits t := fun d hd => valid.2 d (by simp [hd])
  have hmany := Reads.many (.run hdigit ht hend)
  exact ⟨c, t, rfl, Reads.sequence (.cons ((hdigit c (valid.2 c (by simp)) _).mono (by omega))
    (.cons hmany (ReadsAll.nil.mono (by omega))))⟩

namespace Computes

variable {w : Text} {levels : Nat} {item : Node Action}

theorem reads_token {u w₂ : Text} (hctx : Computes ctx M embed) (hlevels : 3 ≤ levels)
    (hw : AreBlanks w) (hu : NoBlank (u ++ (w₂ ++ s))) (hw₂ : AreBlanks w₂) (hs : NoBlank s)
    (h : ctx.Reads levels item (u ++ (w₂ ++ s)) (.matched v (w₂ ++ s))) :
    ctx.Reads (levels + 2) (token id item) (w ++ (u ++ (w₂ ++ s))) (.matched v s) := by
  obtain ⟨a, ha⟩ := reads_blanks ctx hw hu
  obtain ⟨c, hc⟩ := reads_blanks ctx hw₂ hs
  exact (Reads.sequence (.cons (ha.mono hlevels) (.cons h (.cons (hc.mono hlevels)
    (ReadsAll.nil.mono (by omega)))))).action_value ((hctx.perform_token a v c v).mpr rfl)

theorem reads_token_mismatch (hlevels : 3 ≤ levels) (hw : AreBlanks w) (hs : NoBlank s)
    (h : ctx.Reads levels item s .mismatch) :
    ctx.Reads (levels + 2) (token id item) (w ++ s) .mismatch := by
  obtain ⟨a, ha⟩ := reads_blanks ctx hw hs
  exact .action_mismatch (.sequence_mismatch (.later (ha.mono hlevels) (.here h)))

theorem reads_sign (hctx : Computes ctx M embed) {k : Token} (hw : AreBlanks w)
    (h : Tight [k] s rest) :
    ctx.Reads 5 (token id (.literal k.text)) (w ++ s) (.matched (.text k.text) rest) := by
  cases h with
  | @cons _ _ w₂ mid _ hw₂ hrest =>
      cases hrest with
      | nil hrest =>
          have hliteral : ctx.Reads 1 (.literal k.text) (k.text ++ (w₂ ++ rest)) _ := .literal _ _
          exact hctx.reads_token (Nat.le_refl 3) hw (k.noBlank _) hw₂ hrest
            (hliteral.mono (by omega))

theorem reads_operator (hctx : Computes ctx M embed) {o : Operator} {os : List Operator}
    (ho : o ∈ os) (h : Tight [.operator o] s rest) :
    ctx.Reads 5 (token id (.oneOf (os.map Operator.sign))) s (.matched (.text [o.sign]) rest) := by
  cases h with
  | @cons _ _ w₂ mid _ hw₂ hrest =>
      cases hrest with
      | nil hrest =>
          have hsign : ctx.Reads 2 (.oneOf (os.map Operator.sign)) ([o.sign] ++ (w₂ ++ rest)) _ :=
            .oneOf (List.mem_map_of_mem ho)
          have hblank := (Token.operator o).noBlank (w₂ ++ rest)
          exact hctx.reads_token (Nat.le_refl 3) .nil hblank hw₂ hrest
            (hsign.mono (by omega))

theorem reads_number {digits : Text} {valid : IsNumeral digits} {x : N}
    (hctx : Computes ctx M embed) (hw : AreBlanks w) (h : Tight [.numeral digits valid] s rest)
    (hrest : NoDigit rest) (hx : M.number digits = .ok x) :
    ctx.Reads 6 (token id (number id)) (w ++ s) (.matched (embed x) rest) := by
  cases h with
  | @cons _ _ w₂ mid _ hw₂ hmid =>
      cases hmid with
      | nil hblank =>
          obtain ⟨c, t, rfl, hraw⟩ := reads_digits ctx valid hw₂ hrest
          exact hctx.reads_token (by omega) hw ((Token.numeral (c :: t) valid).noBlank _) hw₂ hblank
            (hraw.action_value ((hctx.perform_number c t _).mpr ⟨x, hx, rfl⟩))

end Computes

end Peg.Calculator
