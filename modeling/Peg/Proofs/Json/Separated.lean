import Peg.Proofs.Json.String

/-!
# Lists between brackets

An array and an object are read in the same way: an opening bracket, items with commas
between them or nothing but blanks, and a closing bracket. The grammar gives the blanks
to the items, on both sides, where the syntax gives them to the commas and brackets, so
an item is described here together with the blanks around it, and the blanks pass from
the one to the other at each comma.

The items themselves are left open. They are described by a relation between texts and
meanings, and by how the meaning is found in the result of the item.
-/

namespace Peg.Json

open Context

variable {β : Type} {s rest t : Text} {v : Value Action}

/-- Texts with a comma between any two, and what they mean. -/
inductive Separated (P : Text → β → Prop) : Text → List β → Prop
  | one {t b} : P t b → Separated P t [b]
  | more {t c u b bs} : P t b → IsStructural ',' c → Separated P u bs →
    Separated P (t ++ (c ++ u)) (b :: bs)

theorem IsElements.separated {n : Nat} {t : Text} {vs : List (Value Action)}
    (h : IsElements n t vs) : Separated (IsValue n) t vs := by
  match h with
  | .one hv => exact .one hv
  | .more hv hc hvs => exact .more hv hc hvs.separated

theorem Separated.elements {n : Nat} {vs : List (Value Action)}
    (h : Separated (IsValue n) t vs) : IsElements n t vs := by
  induction h with
  | one hv => exact .one hv
  | more hv hc _ ih => exact .more hv hc ih

/-- A name and a value with a colon between them. -/
def IsMember (n : Nat) (t : Text) (m : Text × Value Action) : Prop :=
  ∃ k c u, IsString k m.1 ∧ IsStructural ':' c ∧ IsValue n u m.2 ∧ t = k ++ (c ++ u)

theorem IsMembers.separated {n : Nat} {t : Text} {ms : List (Text × Value Action)}
    (h : IsMembers n t ms) : Separated (IsMember n) t ms := by
  match h with
  | .one hk hc hv => exact .one ⟨_, _, _, hk, hc, hv, rfl⟩
  | .more hk hc hv hd hms =>
      have hmember : IsMember n _ (_, _) := ⟨_, _, _, hk, hc, hv, rfl⟩
      have hrest := Separated.more hmember hd hms.separated
      simpa only [List.append_assoc] using hrest

theorem Separated.members {n : Nat} {ms : List (Text × Value Action)}
    (h : Separated (IsMember n) t ms) : IsMembers n t ms := by
  induction h with
  | one hm =>
      obtain ⟨k, c, u, hk, hc, hv, rfl⟩ := hm
      exact .one hk hc hv
  | more hm hd _ ih =>
      obtain ⟨k, c, u, hk, hc, hv, rfl⟩ := hm
      have hrest := IsMembers.more hk hc hv hd ih
      simpa only [List.append_assoc] using hrest

/-- Blanks, a text that means `b`, and blanks have been taken off `s`. -/
def Padded (P : Text → β → Prop) (s : Text) (b : β) (rest : Text) : Prop :=
  ∃ w₁ u w₂, AreBlanks w₁ ∧ P u b ∧ AreBlanks w₂ ∧ s = w₁ ++ (u ++ (w₂ ++ rest))

/-- The text is at an end, or at a sign that ends a value. -/
def Closes (s : Text) : Prop :=
  ∀ c, s.head? = some c → c ∈ [CodePoint.ofChar ',', CodePoint.ofChar ']', CodePoint.ofChar '\x7d']

theorem Closes.noBlank (h : Closes s) : NoBlank s := by
  intro c hc hblank
  have hmem := h c hc
  revert hblank
  have hall : ∀ c ∈ [CodePoint.ofChar ',', CodePoint.ofChar ']', CodePoint.ofChar '\x7d'],
      ¬ IsBlank c := by simp [IsBlank]; decide
  exact hall c hmem

/-! ## Items with commas between them -/

/-- The second of two results. -/
def second? : Value Action → Option (Value Action)
  | .tuple [_, v] => some v
  | _ => none

theorem members?_tuple (first : Value Action) (vs : List (Value Action)) :
    Action.members? (.tuple [first, .list vs]) = (vs.mapM second?).map (first :: ·) := by
  have hmapM : ∀ f : Value Action → Option (Value Action), (∀ v, f v = second? v) →
      (do let us ← vs.mapM f; return first :: us) = (vs.mapM second?).map (first :: ·) := by
    intro f hf
    rw [funext hf]
    cases vs.mapM second? <;> rfl
  refine hmapM _ fun v => ?_
  unfold second?
  split
  · rfl
  · next hother =>
      split
      · exact absurd rfl (hother _ _)
      · rfl

/-- What the results of a list of items mean. -/
def meanings? (meaning : Value Action → Option β) (v : Value Action) : Option (List β) :=
  (Action.members? v).bind (List.mapM meaning)

section Matches

variable {P : Text → β → Prop} {meaning : Value Action → Option β} {item : Node Action}
  {size : Nat}

/-- What follows an item, item by item. -/
theorem separated_of_tail
    (hitem : ∀ s v rest, s.length < size → context.Matches item s v rest →
      ∃ b, meaning v = some b ∧ Padded P s b rest)
    {vs : List (Value Action)} {mid u w : Text} {b : β} (hb : P u b) (hw : AreBlanks w)
    (hvs : context.MatchesMany (.sequence [.literal ",", item]) mid vs rest)
    (hsize : mid.length < size) :
    ∃ us bs, vs.mapM second? = some us ∧ us.mapM meaning = some bs ∧
      ∃ t w', Separated P t (b :: bs) ∧ AreBlanks w' ∧ u ++ (w ++ mid) = t ++ (w' ++ rest) := by
  induction vs generalizing mid u w b with
  | nil =>
      obtain rfl : rest = mid := hvs
      exact ⟨[], [], rfl, rfl, u, w, .one hb, hw, rfl⟩
  | cons v vs ih =>
      obtain ⟨mid', hv, hvs⟩ := hvs
      obtain ⟨_, rfl, comma, m, _, rfl, hcomma, x, m', _, rfl, hx, rfl, rfl⟩ := hv.sequence
      obtain ⟨rfl, rfl⟩ := hcomma.literal
      have hlt : m.length < size := by
        simp only [List.length_append] at hsize
        omega
      obtain ⟨b', hb', w₁, u', w₂, hw₁, hu', hw₂, rfl⟩ := hitem m x mid' hlt hx
      have hlt' : mid'.length < size := by
        simp only [List.length_append] at hlt
        omega
      obtain ⟨us, bs, hus, hbs, t, w', ht, hw', heq⟩ := ih hu' hw₂ hvs hlt'
      refine ⟨x :: us, b' :: bs, ?_, ?_, u ++ ((w ++ CodePoint.ofChar ',' :: w₁) ++ t), w',
        .more hb ⟨w, w₁, hw, hw₁, rfl⟩ ht, hw', ?_⟩
      · simp [List.mapM_cons, second?, hus]
      · simp [List.mapM_cons, hb', hbs]
      · rw [heq]
        simp only [List.append_assoc, List.cons_append]
        rfl

theorem matches_separated
    (hitem : ∀ s v rest, s.length < size → context.Matches item s v rest →
      ∃ b, meaning v = some b ∧ Padded P s b rest)
    (hsize : s.length < size)
    (h : context.Matches (item.alternating (.literal ",")) s v rest) :
    ∃ bs, meanings? meaning v = some bs ∧ Padded (Separated P) s bs rest := by
  obtain ⟨_, rfl, first, mid, _, rfl, hfirst, more, last, _, rfl, hmore, rfl, rfl⟩ := h.sequence
  obtain ⟨vs, rfl, hvs⟩ := hmore.many
  obtain ⟨b, hb, w₁, u, w₂, hw₁, hu, hw₂, rfl⟩ := hitem s first mid hsize hfirst
  have hlt : mid.length < size := by
    simp only [List.length_append] at hsize
    omega
  obtain ⟨us, bs, hus, hbs, t, w, ht, hw, heq⟩ := separated_of_tail hitem hu hw₂ hvs hlt
  refine ⟨b :: bs, ?_, w₁, t, w, hw₁, ht, hw, by rw [heq]⟩
  rw [meanings?, members?_tuple, hus]
  simp [List.mapM_cons, hb, hbs]

end Matches

section Reads

variable {P : Text → β → Prop} {meaning : Value Action → Option β} {item : Node Action}
  {levels : Nat}

theorem reads_separated (hlevels : 0 < levels)
    (hitem : ∀ {w₁ u w₂ : Text} {b : β} {s : Text}, AreBlanks w₁ → P u b → AreBlanks w₂ →
      Closes s → ∃ v, context.Reads levels item (w₁ ++ (u ++ (w₂ ++ s))) (.matched v s) ∧
        meaning v = some b)
    {w₁ w₂ : Text} {bs : List β} (ht : Separated P t bs) (hw₁ : AreBlanks w₁)
    (hw₂ : AreBlanks w₂) (hs : Closes s) (hcomma : s.head? ≠ some (CodePoint.ofChar ',')) :
    ∃ v, context.Reads (levels + 3) (item.alternating (.literal ","))
      (w₁ ++ (t ++ (w₂ ++ s))) (.matched v s) ∧ meanings? meaning v = some bs := by
  have htail : ∃ first mid vs us b bs', bs = b :: bs' ∧
      context.Reads levels item (w₁ ++ (t ++ (w₂ ++ s))) (.matched first mid) ∧
      meaning first = some b ∧ vs.mapM second? = some us ∧ us.mapM meaning = some bs' ∧
      context.ReadsMany (levels + 1) (.sequence [.literal ",", item]) mid vs s := by
    induction ht generalizing w₁ with
    | @one t b hb =>
        obtain ⟨v, hv, hval⟩ := hitem hw₁ hb hw₂ hs
        have hstop : context.Reads 2 (.sequence [.literal ",", item]) s .mismatch :=
          .sequence_mismatch (.here (.literal_mismatch (not_prefix_of_head hcomma)))
        exact ⟨v, s, [], [], b, [], rfl, hv, hval, rfl, rfl, .stop (hstop.mono (by omega))⟩
    | @more t c u b bs hb hc hu ih =>
        obtain ⟨a, a', ha, ha', rfl⟩ := hc
        obtain ⟨first', mid', vs, us, b', bs', rfl, hfirst', hval', hus, hbs, hvs⟩ := ih ha'
        have hcloses : Closes (CodePoint.ofChar ',' :: (a' ++ (u ++ (w₂ ++ s)))) := by
          intro d hd
          rw [← Option.some.inj hd]
          simp
        obtain ⟨first, hfirst, hval⟩ := hitem hw₁ hb ha hcloses
        have hliteral : context.Reads 1 (.literal ",")
            (CodePoint.ofChar ',' :: (a' ++ (u ++ (w₂ ++ s)))) _ := .literal "," _
        have hstep : context.Reads (levels + 1) (.sequence [.literal ",", item])
            (CodePoint.ofChar ',' :: (a' ++ (u ++ (w₂ ++ s)))) _ :=
          .sequence (.cons (hliteral.mono hlevels) (.cons hfirst'
            (ReadsAll.nil.mono (by omega))))
        have hshorter := hfirst'.matches.length_le
        refine ⟨first, _, .tuple [.text ",", first'] :: vs, first' :: us, b, b' :: bs', rfl,
          ?_, hval, ?_, ?_, .step hstep ?_ hvs⟩
        · simpa using hfirst
        · simp [List.mapM_cons, second?, hus]
        · simp [List.mapM_cons, hval', hbs]
        · rw [List.length_cons]
          omega
  obtain ⟨first, mid, vs, us, b, bs', rfl, hfirst, hval, hus, hbs, hvs⟩ := htail
  refine ⟨_, .sequence (.cons (hfirst.mono (by omega)) (.cons (.many hvs)
    (ReadsAll.nil.mono (by omega)))), ?_⟩
  rw [meanings?, members?_tuple, hus]
  simp [List.mapM_cons, hval, hbs]

end Reads

end Peg.Json
