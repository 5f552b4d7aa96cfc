import Peg.Proofs.Guarded
import Peg.Proofs.Json.Members
import Peg.Proofs.Json.Separated

/-!
# Reading JSON texts

What the grammar reads as a value is a JSON text, and a JSON text is read as the value
that it denotes. The first goes by the length of the text, because what stands between
brackets is shorter than the whole. The second goes by the nesting, and counts levels:
a level of brackets costs no more than fourteen of them, however much stands between
the brackets.

Since the grammar has no left recursion, a text that is no JSON text is refused.
-/

namespace Peg.Json

open Context

variable {s rest t : Text} {v : Value Action}

/-! ## The shape of the rules -/

/-- What a value is between its blanks. -/
def core : Node Action :=
  .choice [
    .literals ["true", "false", "null"],
    .capture (.text "number") (numberValue id),
    .capture (.text "string") (stringValue id),
    .capture (.text "object") objectRef,
    .capture (.text "array") arrayRef]

theorem value_eq : (value id : Node Action) =
    .action (.sequence [whitespace, core, whitespace]) .value := rfl

/-- Items or blanks between two brackets. -/
def bracketed (opening closing : Char) (label : Text) (item : Node Action) : Node Action :=
  .sequence [
    .literal [CodePoint.ofChar opening],
    .choice [
      .capture (.text label) (item.alternating (.literal ",")),
      .capture (.text emptyLabel) whitespace],
    .literal [CodePoint.ofChar closing]]

/-- Brackets with the action on them. -/
def brackets (opening closing : Char) (label : Text) (item : Node Action) (act : Action) :
    Node Action :=
  .action (bracketed opening closing label item) act

theorem array_eq : (array id : Node Action) = brackets '[' ']' "items" valueRef .array := rfl

theorem object_eq : (object id : Node Action) =
    brackets '\x7b' '\x7d' "pairs" (pair id) .object := rfl

theorem target_value : context.bindings.target? valueId = some (value id) := rfl

theorem target_array : context.bindings.target? arrayId = some (array id) := rfl

theorem target_object : context.bindings.target? objectId = some (object id) := rfl

/-! ## Brackets -/

section Brackets

variable {β : Type} {P : Text → β → Prop} {meaning : Value Action → Option β}
  {item : Node Action} {opening closing : Char} {label : Text} {act : Action}

theorem body?_items (hlabel : label ≠ Text.ofString emptyLabel) (w x v : Value Action) :
    Action.body? (.tuple [w, .captured (.text label) v, x]) = Action.members? v := by
  rw [Action.body?, if_neg hlabel]

theorem body?_empty (w x v : Value Action) :
    Action.body? (.tuple [w, .captured (.text emptyLabel) v, x]) = some [] := by
  rw [Action.body?, if_pos rfl]

/-- What has been taken off between brackets: blanks, or items. -/
theorem matches_bracketed (hlabel : label ≠ Text.ofString emptyLabel)
    (hitem : ∀ s' v rest, s'.length < s.length → context.Matches item s' v rest →
      ∃ b, meaning v = some b ∧ Padded P s' b rest)
    (h : context.Matches (bracketed opening closing label item) s v rest) :
    ∃ ms bs, Action.body? v = some ms ∧
      ms.mapM meaning = some bs ∧ ∃ w₁ u w₂, AreBlanks w₁ ∧ AreBlanks w₂ ∧
        (bs = [] ∧ u = [] ∨ Separated P u bs) ∧
        s = CodePoint.ofChar opening ::
          (w₁ ++ (u ++ (w₂ ++ CodePoint.ofChar closing :: rest))) := by
  obtain ⟨_, rfl, x, m, _, rfl, hx, y, m', _, rfl, hy, z, m'', _, rfl, hz, rfl, rfl⟩ :=
    h.sequence
  obtain ⟨rfl, rfl⟩ := hx.literal
  obtain ⟨rfl, rfl⟩ := hz.literal
  obtain ⟨n, hn, hmatch⟩ := hy.choice
  rcases List.mem_cons.mp hn with rfl | hn
  · obtain ⟨w, rfl, hw⟩ := hmatch.capture
    obtain ⟨bs, hbs, w₁, u, w₂, hw₁, hu, hw₂, rfl⟩ :=
      matches_separated hitem (by simp) hw
    obtain ⟨ms, hms, hmeaning⟩ := Option.bind_eq_some_iff.mp hbs
    exact ⟨ms, bs, by rw [body?_items hlabel, hms], hmeaning, w₁, u, w₂, hw₁, hw₂,
      .inr hu, by simp⟩
  · obtain rfl := List.mem_singleton.mp hn
    obtain ⟨w, rfl, hw⟩ := hmatch.capture
    obtain ⟨w₁, rfl, hw₁⟩ := matches_whitespace hw
    exact ⟨[], [], body?_empty _ _ _, rfl, w₁, [], [], hw₁, .nil, .inl ⟨rfl, rfl⟩, by simp⟩

theorem matches_brackets (hlabel : label ≠ Text.ofString emptyLabel)
    (hitem : ∀ s' v rest, s'.length < s.length → context.Matches item s' v rest →
      ∃ b, meaning v = some b ∧ Padded P s' b rest)
    (h : context.Matches (brackets opening closing label item act) s v rest) :
    ∃ raw ms bs, act.denote? raw = some v ∧ Action.body? raw = some ms ∧
      ms.mapM meaning = some bs ∧ ∃ w₁ u w₂, AreBlanks w₁ ∧ AreBlanks w₂ ∧
        (bs = [] ∧ u = [] ∨ Separated P u bs) ∧
        s = CodePoint.ofChar opening ::
          (w₁ ++ (u ++ (w₂ ++ CodePoint.ofChar closing :: rest))) := by
  rw [brackets] at h
  obtain ⟨raw, hraw, hact⟩ := h.action
  obtain ⟨ms, bs, hms, hbs, hs⟩ := matches_bracketed hlabel hitem hraw
  exact ⟨raw, ms, bs, perform_eq_value.mp hact, hms, hbs, hs⟩

/-- Brackets around items. -/
theorem reads_brackets {levels : Nat} (hlevels : 0 < levels)
    (hlabel : label ≠ Text.ofString emptyLabel)
    (hclosing : CodePoint.ofChar closing ∈ [CodePoint.ofChar ']', CodePoint.ofChar '\x7d'])
    (hitem : ∀ {w₁ u w₂ : Text} {b : β} {s : Text}, AreBlanks w₁ → P u b → AreBlanks w₂ →
      Closes s → ∃ v, context.Reads levels item (w₁ ++ (u ++ (w₂ ++ s))) (.matched v s) ∧
        meaning v = some b)
    {bs : List β} {w₁ w₂ : Text} (ht : Separated P t bs) (hw₁ : AreBlanks w₁)
    (hw₂ : AreBlanks w₂)
    (hact : ∀ raw ms, Action.body? raw = some ms → ms.mapM meaning = some bs →
      act.denote? raw = some v) :
    context.Reads (levels + 7) (brackets opening closing label item act)
      (CodePoint.ofChar opening :: (w₁ ++ (t ++ (w₂ ++ CodePoint.ofChar closing :: s))))
      (.matched v s) := by
  have hcloses : Closes (CodePoint.ofChar closing :: s) := by
    intro c hc
    rw [← Option.some.inj hc]
    exact List.mem_cons_of_mem _ hclosing
  have hcomma : (CodePoint.ofChar closing :: s).head? ≠ some (CodePoint.ofChar ',') := by
    intro hc
    rw [Option.some.inj hc] at hclosing
    exact absurd hclosing (by decide)
  obtain ⟨items, hitems, hmeaning⟩ :=
    reads_separated hlevels hitem ht hw₁ hw₂ hcloses hcomma
  obtain ⟨ms, hms, hbs⟩ := Option.bind_eq_some_iff.mp hmeaning
  have hopening : context.Reads 1 (.literal [CodePoint.ofChar opening]) (CodePoint.ofChar opening ::
      (w₁ ++ (t ++ (w₂ ++ CodePoint.ofChar closing :: s)))) _ := .literal [_] _
  have hclosing' : context.Reads 1 (.literal [CodePoint.ofChar closing])
      (CodePoint.ofChar closing :: s) _ := .literal [_] s
  refine (Reads.sequence (.cons (hopening.mono (by omega : 1 ≤ levels + 5))
    (.cons hitems.capture.first (.cons (hclosing'.mono (by omega))
      (ReadsAll.nil.mono (by omega)))))).action_value (perform_eq_value.mpr ?_)
  exact hact _ ms (by rw [body?_items hlabel, hms]) hbs

/-- Brackets around nothing but blanks. -/
theorem reads_brackets_empty {levels : Nat} (hlevels : 4 ≤ levels)
    (hclosing : CodePoint.ofChar closing ∈ [CodePoint.ofChar ']', CodePoint.ofChar '\x7d'])
    (hitem : ∀ {w s : Text}, AreBlanks w → context.Reads levels item
      (w ++ CodePoint.ofChar closing :: s) .mismatch)
    {w : Text} (hw : AreBlanks w)
    (hact : ∀ raw, Action.body? raw = some [] → act.denote? raw = some v) :
    context.Reads (levels + 5) (brackets opening closing label item act)
      (CodePoint.ofChar opening :: (w ++ CodePoint.ofChar closing :: s)) (.matched v s) := by
  have hblank : NoBlank (CodePoint.ofChar closing :: s) := by
    refine Closes.noBlank fun c hc => ?_
    rw [← Option.some.inj hc]
    exact List.mem_cons_of_mem _ hclosing
  obtain ⟨blanks, hblanks⟩ := reads_whitespace hw hblank
  have hopening : context.Reads 1 (.literal [CodePoint.ofChar opening])
      (CodePoint.ofChar opening :: (w ++ CodePoint.ofChar closing :: s)) _ := .literal [_] _
  have hclosing' : context.Reads 1 (.literal [CodePoint.ofChar closing])
      (CodePoint.ofChar closing :: s) _ := .literal [_] s
  have hmiss : context.Reads (levels + 2) (.capture (.text label) (item.alternating (.literal ",")))
      (w ++ CodePoint.ofChar closing :: s) .mismatch :=
    .capture_mismatch (.sequence_mismatch (.here (hitem hw)))
  refine (Reads.sequence (.cons (hopening.mono (by omega : 1 ≤ levels + 3))
    (.cons (hmiss.next (.first (hblanks.capture.mono (by omega))))
      (.cons (hclosing'.mono (by omega)) (ReadsAll.nil.mono (by omega)))))).action_value
    (perform_eq_value.mpr (hact _ (body?_empty _ _ _)))

end Brackets

/-! ## Where no value begins -/

/-- What begins with a bracket is no keyword, no number and no string. -/
theorem reads_core_bracket {levels : Nat} {c : CodePoint} {u : Text} {r : Reading (Value Action)}
    (hc : c ∈ [CodePoint.ofChar '[', CodePoint.ofChar ']', CodePoint.ofChar '\x7b'])
    (hlevels : 13 ≤ levels)
    (h : context.Reads (levels + 1)
      (.choice [.capture (.text "object") objectRef, .capture (.text "array") arrayRef])
      (c :: u) r) :
    context.Reads (levels + 1) core (c :: u) r := by
  have hrefuses : ∀ n ∈ [.literals ["true", "false", "null"], numberValue id, stringValue id],
      (n : Node Action).refuses (some c) = true := by
    simp only [List.mem_cons, List.not_mem_nil, or_false] at hc
    rcases hc with rfl | rfl | rfl <;> decide
  have hheight : ∀ n ∈ [.literals ["true", "false", "null"], numberValue id, stringValue id],
      (n : Node Action).height ≤ 12 := by decide
  have hmiss : ∀ n ∈ [.literals ["true", "false", "null"], numberValue id, stringValue id],
      context.Reads 12 n (c :: u) .mismatch := fun n hn =>
    .mono (.of_refuses (hrefuses n hn)) (hheight n hn)
  have hkeyword := hmiss _ (.head _)
  have hnumber := hmiss _ (.tail _ (.head _))
  have hstring := hmiss _ (.tail _ (.tail _ (.head _)))
  exact .next (hkeyword.mono (by omega)) (.next (hnumber.capture_mismatch.mono hlevels)
    (.next (hstring.capture_mismatch.mono hlevels) h))

theorem reads_object_mismatch {c : CodePoint} (hc : c ≠ CodePoint.ofChar '\x7b') (u : Text) :
    context.Reads 4 objectRef (c :: u) .mismatch := by
  refine .placeholder target_object (.action_mismatch (.sequence_mismatch (.here ?_)))
  exact .literal_mismatch (not_prefix_of_head fun h => hc (Option.some.inj h))

theorem reads_array_mismatch {c : CodePoint} (hc : c ≠ CodePoint.ofChar '[') (u : Text) :
    context.Reads 4 arrayRef (c :: u) .mismatch := by
  refine .placeholder target_array (.action_mismatch (.sequence_mismatch (.here ?_)))
  exact .literal_mismatch (not_prefix_of_head fun h => hc (Option.some.inj h))

theorem reads_core_mismatch (s : Text) :
    context.Reads 14 core (CodePoint.ofChar ']' :: s) .mismatch := by
  have hobject := reads_object_mismatch (c := CodePoint.ofChar ']') (by decide) s
  have harray := reads_array_mismatch (c := CodePoint.ofChar ']') (by decide) s
  exact reads_core_bracket (by simp) (Nat.le_refl _)
    (.next (hobject.capture_mismatch.mono (by omega))
      (.next (harray.capture_mismatch.mono (by omega)) (.mono .choice_nil (by omega))))

theorem reads_value_mismatch {w : Text} (hw : AreBlanks w) (s : Text) :
    context.Reads 17 valueRef (w ++ CodePoint.ofChar ']' :: s) .mismatch := by
  have hblank : NoBlank (CodePoint.ofChar ']' :: s) := by
    refine Closes.noBlank fun c hc => ?_
    rw [← Option.some.inj hc]
    simp
  obtain ⟨v, hv⟩ := reads_whitespace hw hblank
  refine .placeholder target_value ?_
  rw [value_eq]
  exact .action_mismatch (.sequence_mismatch (.later (hv.mono (by omega))
    (.here (reads_core_mismatch s))))

theorem reads_pair_mismatch {w : Text} (hw : AreBlanks w) (s : Text) :
    context.Reads 13 (pair id) (w ++ CodePoint.ofChar '\x7d' :: s) .mismatch := by
  have hblank : NoBlank (CodePoint.ofChar '\x7d' :: s) := by
    refine Closes.noBlank fun c hc => ?_
    rw [← Option.some.inj hc]
    simp
  have hstring : (stringValue id : Node Action).refuses (some (CodePoint.ofChar '\x7d')) = true := by
    decide
  obtain ⟨v, hv⟩ := reads_whitespace hw hblank
  have hmiss : context.Reads _ (stringValue id) (CodePoint.ofChar '\x7d' :: s) .mismatch :=
    .of_refuses hstring
  exact .sequence_mismatch (.later (hv.mono (by omega)) (.here (hmiss.mono (by decide))))

/-! ## What is read is JSON -/

theorem mapM_some {β : Type} (l : List β) : l.mapM some = some l := by
  induction l with
  | nil => rfl
  | cons b l ih => simp [List.mapM_cons, ih]

theorem denote_array {raw : Value Action} :
    Action.array.denote? raw = some v ↔ ∃ ms, Action.body? raw = some ms ∧ v = .list ms := by
  rw [Action.denote?]
  cases Action.body? raw <;> simp [eq_comm]

theorem denote_object {raw : Value Action} :
    Action.object.denote? raw = some v ↔ ∃ ms ps, Action.body? raw = some ms ∧
      ms.mapM Action.pair? = some ps ∧ v = dictOf ps := by
  rw [Action.denote?]
  cases Action.body? raw with
  | none => simp
  | some ms => cases hps : ms.mapM Action.pair? <;> simp [hps, dictOf, entries_eq, eq_comm]

theorem isValue_number {n : Nat} {p : NumberParts} (h : IsNumber t p) :
    IsValue n t (p.toValue : Value Action) := by
  by_cases hint : p.fraction = none ∧ p.exponent = none
  · obtain ⟨hf, he⟩ := hint
    rw [toValue_of_integer hf he]
    exact .integer h hf he
  · have hsome : (p.fraction.isNone && p.exponent.isNone) = false := by
      cases hf : p.fraction <;> cases he : p.exponent <;> simp_all
    simp only [NumberParts.toValue, hsome, Bool.false_eq_true, if_false]
    refine .real h ?_
    tauto

theorem isValue_array {n : Nat} {w₁ u w₂ : Text} {vs : List (Value Action)}
    (hw₁ : AreBlanks w₁) (hw₂ : AreBlanks w₂)
    (h : vs = [] ∧ u = [] ∨ Separated (IsValue n) u vs) :
    IsValue (n + 1) (CodePoint.ofChar '[' :: (w₁ ++ (u ++ (w₂ ++ [CodePoint.ofChar ']']))))
      (.list vs) := by
  have hopening : IsStructural '[' (CodePoint.ofChar '[' :: w₁) :=
    ⟨[], w₁, .nil, hw₁, rfl⟩
  have hclosing : IsStructural ']' (w₂ ++ [CodePoint.ofChar ']']) :=
    ⟨w₂, [], hw₂, .nil, rfl⟩
  rcases h with ⟨rfl, rfl⟩ | h
  · exact .emptyArray hopening hclosing
  · exact .array hopening h.elements hclosing

theorem isValue_object {n : Nat} {w₁ u w₂ : Text} {ms : List (Text × Value Action)}
    (hw₁ : AreBlanks w₁) (hw₂ : AreBlanks w₂)
    (h : ms = [] ∧ u = [] ∨ Separated (IsMember n) u ms) :
    IsValue (n + 1)
      (CodePoint.ofChar '\x7b' :: (w₁ ++ (u ++ (w₂ ++ [CodePoint.ofChar '\x7d'])))) (dictOf ms) := by
  have hopening : IsStructural '{' (CodePoint.ofChar '\x7b' :: w₁) :=
    ⟨[], w₁, .nil, hw₁, rfl⟩
  have hclosing : IsStructural '}' (w₂ ++ [CodePoint.ofChar '\x7d']) :=
    ⟨w₂, [], hw₂, .nil, rfl⟩
  rcases h with ⟨rfl, rfl⟩ | h
  · exact .emptyObject hopening hclosing
  · exact .object hopening h.members hclosing

theorem value?_text {a b : Value Action} {k : Text} {n : Nat}
    (hk : k ∈ (["true", "false", "null"] : List Text))
    (h : Action.value? (.tuple [a, .text k, b]) = some v) : IsValue n k v := by
  simp only [List.mem_cons, List.not_mem_nil, or_false] at hk
  rcases hk with rfl | rfl | rfl
  · obtain rfl : .bool true = v := Option.some.inj h
    exact .true
  · obtain rfl : .bool false = v := Option.some.inj h
    exact .false
  · obtain rfl : .null = v := Option.some.inj h
    exact .null

theorem matches_pair {n : Nat}
    (hvalue : ∀ s' v rest, s'.length ≤ s.length → context.Matches valueRef s' v rest →
      Padded (IsValue n) s' v rest)
    (h : context.Matches (pair id) s v rest) :
    ∃ m, Action.pair? v = some m ∧ Padded (IsMember n) s m rest := by
  obtain ⟨_, rfl, a, m₁, _, rfl, ha, b, m₂, _, rfl, hb, c, m₃, _, rfl, hc, d, m₄, _, rfl, hd,
    e, m₅, _, rfl, he, rfl, rfl⟩ := h.sequence
  obtain ⟨w₁, rfl, hw₁⟩ := matches_whitespace ha
  obtain ⟨k, name, rfl, hk, rfl⟩ := matches_string hb
  obtain ⟨x, rfl, hx⟩ := matches_whitespace hc
  obtain ⟨rfl, rfl⟩ := hd.literal
  have hle : m₄.length ≤ (w₁ ++ (k ++ (x ++ (Text.ofString ":" ++ m₄)))).length := by
    simp only [List.length_append]
    omega
  obtain ⟨y, u, w₂, hy, hu, hw₂, rfl⟩ := hvalue m₄ e rest hle he
  refine ⟨(name, e), rfl, w₁, k ++ ((x ++ CodePoint.ofChar ':' :: y) ++ u), w₂, hw₁,
    ⟨k, _, u, hk, ⟨x, y, hx, hy, rfl⟩, hu, rfl⟩, hw₂, ?_⟩
  simp only [List.append_assoc, List.cons_append]
  rfl

theorem matches_core {n : Nat} {a b c : Value Action}
    (hvalue : ∀ s' v rest, s'.length < s.length → context.Matches valueRef s' v rest →
      Padded (IsValue n) s' v rest)
    (h : context.Matches core s b rest)
    (hact : Action.value? (.tuple [a, b, c]) = some v) :
    ∃ u, s = u ++ rest ∧ IsValue (n + 1) u v := by
  obtain ⟨m, hm, hmatch⟩ := h.choice
  simp only [List.mem_cons, List.not_mem_nil, or_false] at hm
  rcases hm with rfl | rfl | rfl | rfl | rfl
  · obtain ⟨k, hk, rfl, rfl⟩ := hmatch.literals
    exact ⟨k, rfl, value?_text hk hact⟩
  · obtain ⟨w, rfl, hw⟩ := hmatch.capture
    obtain rfl : w = v := Option.some.inj hact
    obtain ⟨t, p, rfl, ht, rfl⟩ := matches_number hw
    exact ⟨t, rfl, isValue_number ht⟩
  · obtain ⟨w, rfl, hw⟩ := hmatch.capture
    obtain rfl : w = v := Option.some.inj hact
    obtain ⟨t, name, rfl, ht, rfl⟩ := matches_string hw
    exact ⟨t, rfl, .string ht⟩
  · obtain ⟨w, rfl, hw⟩ := hmatch.capture
    obtain rfl : w = v := Option.some.inj hact
    have hobject := hw.placeholder target_object
    rw [object_eq] at hobject
    obtain ⟨raw, ms, bs, hraw, hms, hbs, w₁, u, w₂, hw₁, hw₂, hu, rfl⟩ :=
      matches_brackets (P := IsMember n) (by decide)
        (fun s' v rest hlt h => matches_pair (fun s'' v rest hle => hvalue s'' v rest (by omega)) h)
        hobject
    obtain ⟨ms', ps, hms', hps, rfl⟩ := denote_object.mp hraw
    obtain rfl : ms = ms' := Option.some.inj (hms.symm.trans hms')
    obtain rfl : bs = ps := Option.some.inj (hbs.symm.trans hps)
    exact ⟨_, by simp, isValue_object hw₁ hw₂ hu⟩
  · obtain ⟨w, rfl, hw⟩ := hmatch.capture
    obtain rfl : w = v := Option.some.inj hact
    have harray := hw.placeholder target_array
    rw [array_eq] at harray
    obtain ⟨raw, ms, bs, hraw, hms, hbs, w₁, u, w₂, hw₁, hw₂, hu, rfl⟩ :=
      matches_brackets (P := IsValue n) (by decide)
        (fun s' v rest hlt h => ⟨v, rfl, hvalue s' v rest hlt h⟩) harray
    obtain ⟨ms', hms', rfl⟩ := denote_array.mp hraw
    obtain rfl : ms = ms' := Option.some.inj (hms.symm.trans hms')
    obtain rfl : bs = ms := Option.some.inj (hbs.symm.trans (mapM_some ms))
    exact ⟨_, by simp, isValue_array hw₁ hw₂ hu⟩

/-- The nesting is bounded by the length, if by nothing else. -/
theorem matches_value {n : Nat} (hn : s.length < n)
    (h : context.Matches valueRef s v rest) : Padded (IsValue n) s v rest := by
  induction n generalizing s v rest with
  | zero => omega
  | succ n ih =>
      have hvalue := h.placeholder target_value
      rw [value_eq] at hvalue
      obtain ⟨raw, hraw, hact⟩ := hvalue.action
      obtain ⟨_, rfl, a, m₁, _, rfl, ha, b, m₂, _, rfl, hb, c, m₃, _, rfl, hc, rfl, rfl⟩ :=
        hraw.sequence
      obtain ⟨w₁, rfl, hw₁⟩ := matches_whitespace ha
      obtain ⟨w₂, rfl, hw₂⟩ := matches_whitespace hc
      obtain ⟨u, rfl, hu⟩ := matches_core (n := n)
        (fun s' v rest hlt h => ih (by simp only [List.length_append] at *; omega) h) hb
        (perform_eq_value.mp hact)
      exact ⟨w₁, u, w₂, hw₁, hu, hw₂, rfl⟩

/-! ## JSON is read -/

/-- A value between blanks, from what the grammar makes of it there. -/
theorem reads_value_of_core {levels : Nat} {w₁ w₂ u : Text} {b : Value Action}
    (hlevels : 3 ≤ levels) (hw₁ : AreBlanks w₁) (hw₂ : AreBlanks w₂) (hu : NoBlank u)
    (hs : NoBlank s) (hcore : context.Reads levels core u (.matched b (w₂ ++ s)))
    (hval : ∀ a c, Action.value? (.tuple [a, b, c]) = some v) :
    context.Reads (levels + 3) valueRef (w₁ ++ u) (.matched v s) := by
  obtain ⟨a, ha⟩ := reads_whitespace hw₁ hu
  obtain ⟨c, hc⟩ := reads_whitespace hw₂ hs
  refine .placeholder target_value ?_
  rw [value_eq]
  exact (Reads.sequence (.cons (ha.mono hlevels) (.cons hcore (.cons (hc.mono hlevels)
    (ReadsAll.nil.mono (by omega)))))).action_value (perform_eq_value.mpr (hval a c))

theorem reads_core_keyword {k : Text} (hk : k ∈ (["true", "false", "null"] : List Text))
    (s : Text) : context.Reads 3 core (k ++ s) (.matched (.text k) s) := by
  refine .first ?_
  have hread : ∀ k : Text, context.Reads 1 (.literal k) (k ++ s) _ := fun k => .literal k s
  simp only [List.mem_cons, List.not_mem_nil, or_false] at hk
  rcases hk with rfl | rfl | rfl
  · exact .first (hread "true")
  · have hhead : ("false" ++ s : Text).head? ≠ some (CodePoint.ofChar 't') :=
      fun h => absurd (Option.some.inj h) (by decide)
    exact .next (.literal_mismatch (not_prefix_of_head hhead)) (.first (hread "false"))
  · have htrue : ("null" ++ s : Text).head? ≠ some (CodePoint.ofChar 't') :=
      fun h => absurd (Option.some.inj h) (by decide)
    have hfalse : ("null" ++ s : Text).head? ≠ some (CodePoint.ofChar 'f') :=
      fun h => absurd (Option.some.inj h) (by decide)
    exact .next (.literal_mismatch (not_prefix_of_head htrue))
      (.next (.literal_mismatch (not_prefix_of_head hfalse)) (.first (hread "null")))

/-- A number begins with a minus sign or a digit. -/
theorem IsNumber.head {p : NumberParts} (h : IsNumber t p) :
    ∃ c u, t = c :: u ∧ 0x2D ≤ c.val ∧ c.val ≤ 0x39 := by
  cases h with
  | negative => exact ⟨_, _, rfl, by decide, by decide⟩
  | positive hw =>
      cases hw with
      | zero => exact ⟨_, _, rfl, by decide, by decide⟩
      | positive hlow hhigh => exact ⟨_, _, rfl, by omega, hhigh⟩

theorem reads_core_number {p : NumberParts} (h : IsNumber t p) (hs : EndsNumber s) :
    context.Reads 11 core (t ++ s) (.matched (.captured (.text "number") p.toValue) s) := by
  obtain ⟨c, u, rfl, hlow, hhigh⟩ := h.head
  have hletter : ∀ d : CodePoint, 0x61 ≤ d.val → ((c :: u) ++ s).head? ≠ some d := by
    intro d hd hhead
    rw [Option.some.inj hhead] at hhigh
    omega
  have hkeyword : context.Reads 2 (.literals ["true", "false", "null"]) ((c :: u) ++ s)
      .mismatch := by
    refine .choice_mismatch fun m hm => ?_
    obtain ⟨k, hk, rfl⟩ := List.mem_map.mp hm
    simp only [List.mem_cons, List.not_mem_nil, or_false] at hk
    rcases hk with rfl | rfl | rfl <;>
      exact .literal_mismatch (not_prefix_of_head (hletter _ (by decide)))
  exact .next (hkeyword.mono (by omega)) (.first (reads_number h hs).capture)

theorem reads_core_string {name : Text} (h : IsString t name) (s : Text) :
    context.Reads 14 core (t ++ s) (.matched (.captured (.text "string") (.text name)) s) := by
  have hread : context.Reads 13 (.capture (.text "string") (stringValue id)) (t ++ s) _ :=
    (reads_string h s).capture
  obtain ⟨ht⟩ := h
  have hkeyword : (Node.literals ["true", "false", "null"] : Node Action).refuses
      (some quotationMark) = true := by decide
  have hnumber : (numberValue id : Node Action).refuses (some quotationMark) = true := by decide
  exact .next (.mono (.of_refuses hkeyword) (by decide)) (.next
    (.mono (.capture_mismatch (.of_refuses hnumber)) (by decide)) (.first hread))

theorem reads_core_object {levels : Nat} {u : Text} (hlevels : 13 ≤ levels)
    (h : context.Reads levels (brackets '\x7b' '\x7d' "pairs" (pair id) .object)
      (CodePoint.ofChar '\x7b' :: u) (.matched v s)) :
    context.Reads (levels + 3) core (CodePoint.ofChar '\x7b' :: u)
      (.matched (.captured (.text "object") v) s) := by
  have hobject : context.Reads (levels + 1) objectRef (CodePoint.ofChar '\x7b' :: u) _ :=
    .placeholder target_object h
  exact reads_core_bracket (by simp) (by omega) (.first hobject.capture)

theorem reads_core_array {levels : Nat} {u : Text} (hlevels : 13 ≤ levels)
    (h : context.Reads levels (brackets '[' ']' "items" valueRef .array)
      (CodePoint.ofChar '[' :: u) (.matched v s)) :
    context.Reads (levels + 3) core (CodePoint.ofChar '[' :: u)
      (.matched (.captured (.text "array") v) s) := by
  have hobject := reads_object_mismatch (c := CodePoint.ofChar '[') (by decide) u
  have harray : context.Reads (levels + 1) arrayRef (CodePoint.ofChar '[' :: u) _ :=
    .placeholder target_array h
  exact reads_core_bracket (by simp) (by omega)
    (.next (hobject.capture_mismatch.mono (by omega)) (.first harray.capture))

theorem reads_pair {levels : Nat} {n : Nat} {w₁ u w₂ : Text} {m : Text × Value Action}
    (hlevels : 12 ≤ levels)
    (hvalue : ∀ {w₁ u w₂ : Text} {v : Value Action} {s : Text}, AreBlanks w₁ → IsValue n u v →
      AreBlanks w₂ → Closes s →
        context.Reads levels valueRef (w₁ ++ (u ++ (w₂ ++ s))) (.matched v s))
    (hw₁ : AreBlanks w₁) (hu : IsMember n u m) (hw₂ : AreBlanks w₂) (hs : Closes s) :
    ∃ v, context.Reads (levels + 1) (pair id) (w₁ ++ (u ++ (w₂ ++ s))) (.matched v s) ∧
      Action.pair? v = some m := by
  obtain ⟨k, c, t, hk, ⟨x, y, hx, hy, rfl⟩, ht, rfl⟩ := hu
  have hcolon : NoBlank (CodePoint.ofChar ':' :: (y ++ (t ++ (w₂ ++ s)))) := by
    intro c hc
    rw [← Option.some.inj hc]
    simp [IsBlank]
    decide
  have hquote : ∀ s : Text, NoBlank (k ++ s) := by
    intro s c hc
    obtain ⟨_⟩ := hk
    rw [← Option.some.inj hc]
    simp [IsBlank]
    decide
  obtain ⟨a, ha⟩ := reads_whitespace hw₁
    (hquote (x ++ CodePoint.ofChar ':' :: (y ++ (t ++ (w₂ ++ s)))))
  obtain ⟨b, hb⟩ := reads_whitespace hx hcolon
  have hliteral : context.Reads 1 (.literal ":")
      (CodePoint.ofChar ':' :: (y ++ (t ++ (w₂ ++ s)))) _ := .literal ":" _
  have hpair : context.Reads (levels + 1) (pair id)
      (w₁ ++ (k ++ (x ++ CodePoint.ofChar ':' :: (y ++ (t ++ (w₂ ++ s)))))) _ :=
    .sequence (.cons (ha.mono (by omega)) (.cons ((reads_string hk _).mono hlevels)
      (.cons (hb.mono (by omega)) (.cons (hliteral.mono (by omega))
        (.cons (hvalue hy ht hw₂ hs) (ReadsAll.nil.mono (by omega)))))))
  refine ⟨.tuple [a, .text m.1, b, .text ":", m.2], ?_, rfl⟩
  simpa using hpair

theorem endsNumber_of_closes {w : Text} (hw : AreBlanks w) (hs : Closes s) :
    EndsNumber (w ++ s) := by
  have hhead : ∀ c, (w ++ s).head? = some c → c ∈ ([CodePoint.ofChar ' ',
      CodePoint.ofChar '\t', CodePoint.ofChar '\n', CodePoint.ofChar '\r', CodePoint.ofChar ',',
      CodePoint.ofChar ']', CodePoint.ofChar '\x7d'] : Text) := by
    intro c hc
    cases w with
    | nil => exact List.mem_append_right [_, _, _, _] (hs c hc)
    | cons d w =>
        rw [← Option.some.inj hc]
        exact List.mem_append_left _ (hw d (by simp))
  have hall : ∀ c, (w ++ s).head? = some c → ¬ c.isDigit = true ∧ c ≠ CodePoint.ofChar '.' ∧
      c ≠ CodePoint.ofChar 'e' ∧ c ≠ CodePoint.ofChar 'E' := by
    intro c hc
    have hmem := hhead c hc
    simp only [List.mem_cons, List.not_mem_nil, or_false] at hmem
    rcases hmem with rfl | rfl | rfl | rfl | rfl | rfl | rfl <;> decide
  exact {
    digit := fun c hc => (hall c hc).1
    point := fun hc => (hall _ hc).2.1 rfl
    exponent := by
      intro c hhead hc
      have hne := (hall c hhead).2.2
      simp only [List.mem_cons, List.not_mem_nil, or_false] at hc
      rcases hc with rfl | rfl
      · exact hne.1 rfl
      · exact hne.2 rfl }

theorem reads_array {n : Nat} {w₁ u w₂ : Text} {vs : List (Value Action)}
    (hvalue : ∀ {w₁ u w₂ : Text} {v : Value Action} {s : Text}, AreBlanks w₁ → IsValue n u v →
      AreBlanks w₂ → Closes s →
        context.Reads (14 * n + 17) valueRef (w₁ ++ (u ++ (w₂ ++ s))) (.matched v s))
    (hw₁ : AreBlanks w₁) (hu : vs = [] ∧ u = [] ∨ Separated (IsValue n) u vs)
    (hw₂ : AreBlanks w₂) (s : Text) :
    context.Reads (14 * n + 24) (brackets '[' ']' "items" valueRef .array)
      (CodePoint.ofChar '[' :: (w₁ ++ (u ++ (w₂ ++ CodePoint.ofChar ']' :: s))))
      (.matched (.list vs) s) := by
  rcases hu with ⟨rfl, rfl⟩ | hu
  · have hempty : context.Reads (17 + 5) (brackets '[' ']' "items" valueRef .array)
        (CodePoint.ofChar '[' :: ((w₁ ++ w₂) ++ CodePoint.ofChar ']' :: s)) _ :=
      reads_brackets_empty (by omega) (by simp) (fun hw => reads_value_mismatch hw _)
        (hw₁.append hw₂) fun raw hraw => denote_array.mpr ⟨[], hraw, rfl⟩
    rw [List.nil_append, ← List.append_assoc]
    exact hempty.mono (by omega)
  · have hitem : ∀ {w₁ u w₂ : Text} {v : Value Action} {s : Text}, AreBlanks w₁ →
        IsValue n u v → AreBlanks w₂ → Closes s → ∃ w, context.Reads (14 * n + 17) valueRef
          (w₁ ++ (u ++ (w₂ ++ s))) (.matched w s) ∧ some w = some v :=
      fun hw₁ hu hw₂ hs => ⟨_, hvalue hw₁ hu hw₂ hs, rfl⟩
    refine reads_brackets (by omega) (by decide) (by simp) hitem hu hw₁ hw₂ fun raw ms hraw hms => ?_
    obtain rfl : ms = vs := Option.some.inj ((mapM_some ms).symm.trans hms)
    exact denote_array.mpr ⟨ms, hraw, rfl⟩

theorem reads_object {n : Nat} {w₁ u w₂ : Text} {ms : List (Text × Value Action)}
    (hvalue : ∀ {w₁ u w₂ : Text} {v : Value Action} {s : Text}, AreBlanks w₁ → IsValue n u v →
      AreBlanks w₂ → Closes s →
        context.Reads (14 * n + 17) valueRef (w₁ ++ (u ++ (w₂ ++ s))) (.matched v s))
    (hw₁ : AreBlanks w₁) (hu : ms = [] ∧ u = [] ∨ Separated (IsMember n) u ms)
    (hw₂ : AreBlanks w₂) (s : Text) :
    context.Reads (14 * n + 25) (brackets '\x7b' '\x7d' "pairs" (pair id) .object)
      (CodePoint.ofChar '\x7b' :: (w₁ ++ (u ++ (w₂ ++ CodePoint.ofChar '\x7d' :: s))))
      (.matched (dictOf ms) s) := by
  rcases hu with ⟨rfl, rfl⟩ | hu
  · have hempty : context.Reads (13 + 5) (brackets '\x7b' '\x7d' "pairs" (pair id) .object)
        (CodePoint.ofChar '\x7b' :: ((w₁ ++ w₂) ++ CodePoint.ofChar '\x7d' :: s)) _ :=
      reads_brackets_empty (by omega) (by simp) (fun hw => reads_pair_mismatch hw _)
        (hw₁.append hw₂) fun raw hraw => denote_object.mpr ⟨[], [], hraw, rfl, rfl⟩
    rw [List.nil_append, ← List.append_assoc]
    exact hempty.mono (by omega)
  · exact reads_brackets (by omega) (by decide) (by simp)
      (fun hw₁ hu hw₂ hs => reads_pair (by omega) hvalue hw₁ hu hw₂ hs) hu hw₁ hw₂
      fun raw vs hraw hvs => denote_object.mpr ⟨vs, ms, hraw, hvs, rfl⟩

/-- The blanks of the two brackets belong to the value around what is between them. -/
theorem reads_bracketed {levels : Nat} {opening closing : Char} {label a b w₁ w₂ : Text}
    (hlevels : 3 ≤ levels) (ha : IsStructural opening a) (hb : IsStructural closing b)
    (hopening : ¬ IsBlank (CodePoint.ofChar opening)) (hw₁ : AreBlanks w₁)
    (hw₂ : AreBlanks w₂) (hs : Closes s)
    (hcore : ∀ {x y s : Text}, AreBlanks x → AreBlanks y → context.Reads levels core
      (CodePoint.ofChar opening :: (x ++ (t ++ (y ++ CodePoint.ofChar closing :: s))))
      (.matched (.captured (.text label) v) s)) :
    context.Reads (levels + 3) valueRef (w₁ ++ ((a ++ (t ++ b)) ++ (w₂ ++ s)))
      (.matched v s) := by
  obtain ⟨x₁, x₂, hx₁, hx₂, rfl⟩ := ha
  obtain ⟨y₁, y₂, hy₁, hy₂, rfl⟩ := hb
  have hread := reads_value_of_core hlevels (hw₁.append hx₁) (hy₂.append hw₂)
    (EndsRun.cons hopening) hs.noBlank (hcore hx₂ hy₁) fun _ _ => rfl
  simpa using hread

theorem reads_keyword {k w₁ w₂ : Text} (hk : k ∈ (["true", "false", "null"] : List Text))
    (hw₁ : AreBlanks w₁) (hw₂ : AreBlanks w₂) (hs : Closes s)
    (hval : ∀ a c, Action.value? (.tuple [a, .text k, c]) = some v) :
    context.Reads 17 valueRef (w₁ ++ (k ++ (w₂ ++ s))) (.matched v s) := by
  have hblank : NoBlank (k ++ (w₂ ++ s)) := by
    simp only [List.mem_cons, List.not_mem_nil, or_false] at hk
    rcases hk with rfl | rfl | rfl <;> exact EndsRun.cons (by simp [IsBlank]; decide)
  have hread := reads_value_of_core (Nat.le_refl 3) hw₁ hw₂ hblank hs.noBlank
    (reads_core_keyword hk _) hval
  exact hread.mono (by omega)

theorem reads_number_value {p : NumberParts} {w₁ w₂ : Text} (ht : IsNumber t p)
    (hw₁ : AreBlanks w₁) (hw₂ : AreBlanks w₂) (hs : Closes s) :
    context.Reads 17 valueRef (w₁ ++ (t ++ (w₂ ++ s))) (.matched p.toValue s) := by
  have hblank : NoBlank (t ++ (w₂ ++ s)) := by
    obtain ⟨c, u, rfl, hlow, -⟩ := ht.head
    refine EndsRun.cons fun hc => ?_
    simp only [IsBlank, List.mem_cons, List.not_mem_nil, or_false] at hc
    rcases hc with rfl | rfl | rfl | rfl <;> exact absurd hlow (by decide)
  have hread := reads_value_of_core (by omega) hw₁ hw₂ hblank hs.noBlank
    (reads_core_number ht (endsNumber_of_closes hw₂ hs)) fun _ _ => rfl
  exact hread.mono (by omega)

theorem reads_string_value {name w₁ w₂ : Text} (ht : IsString t name)
    (hw₁ : AreBlanks w₁) (hw₂ : AreBlanks w₂) (hs : Closes s) :
    context.Reads 17 valueRef (w₁ ++ (t ++ (w₂ ++ s))) (.matched (.text name) s) := by
  have hblank : NoBlank (t ++ (w₂ ++ s)) := by
    obtain ⟨_⟩ := ht
    exact EndsRun.cons (by simp [IsBlank]; decide)
  exact reads_value_of_core (by omega) hw₁ hw₂ hblank hs.noBlank (reads_core_string ht _)
    fun _ _ => rfl

/-- A level of nesting costs no more than fourteen levels of the reading. -/
theorem reads_value {n : Nat} {w₁ w₂ : Text} (hw₁ : AreBlanks w₁) (ht : IsValue n t v)
    (hw₂ : AreBlanks w₂) (hs : Closes s) :
    context.Reads (14 * n + 17) valueRef (w₁ ++ (t ++ (w₂ ++ s))) (.matched v s) := by
  induction n using Nat.strong_induction_on generalizing t v w₁ w₂ s with
  | _ n ih =>
      cases ht with
      | true => exact (reads_keyword (by simp) hw₁ hw₂ hs fun _ _ => rfl).mono (by omega)
      | false => exact (reads_keyword (by simp) hw₁ hw₂ hs fun _ _ => rfl).mono (by omega)
      | null => exact (reads_keyword (by simp) hw₁ hw₂ hs fun _ _ => rfl).mono (by omega)
      | integer hp hf he =>
          have hread := reads_number_value hp hw₁ hw₂ hs
          rw [toValue_of_integer hf he] at hread
          exact hread.mono (by omega)
      | real hp hfe =>
          have hread := reads_number_value hp hw₁ hw₂ hs
          rw [NumberParts.toValue, if_neg (by simpa using by tauto)] at hread
          exact hread.mono (by omega)
      | string hname => exact (reads_string_value hname hw₁ hw₂ hs).mono (by omega)
      | @emptyArray n a b ha hb =>
          have hread := reads_bracketed (by omega) ha hb (by simp [IsBlank]; decide) hw₁ hw₂ hs
            fun hx hy => reads_core_array (by omega)
              (reads_array (fun hw₁ hu hw₂ hs => ih n (by omega) hw₁ hu hw₂ hs) hx
                (.inl ⟨rfl, rfl⟩) hy _)
          exact hread.mono (by omega)
      | @array n a t b vs ha hvs hb =>
          have hread := reads_bracketed (by omega) ha hb (by simp [IsBlank]; decide) hw₁ hw₂ hs
            fun hx hy => reads_core_array (by omega)
              (reads_array (fun hw₁ hu hw₂ hs => ih n (by omega) hw₁ hu hw₂ hs) hx
                (.inr hvs.separated) hy _)
          exact hread.mono (by omega)
      | @emptyObject n a b ha hb =>
          have hread := reads_bracketed (by omega) ha hb (by simp [IsBlank]; decide) hw₁ hw₂ hs
            fun hx hy => reads_core_object (by omega)
              (reads_object (fun hw₁ hu hw₂ hs => ih n (by omega) hw₁ hu hw₂ hs) hx
                (.inl ⟨rfl, rfl⟩) hy _)
          exact hread.mono (by omega)
      | @object n a t b ms ha hms hb =>
          have hread := reads_bracketed (by omega) ha hb (by simp [IsBlank]; decide) hw₁ hw₂ hs
            fun hx hy => reads_core_object (by omega)
              (reads_object (fun hw₁ hu hw₂ hs => ih n (by omega) hw₁ hu hw₂ hs) hx
                (.inr hms.separated) hy _)
          exact hread.mono (by omega)

end Peg.Json
