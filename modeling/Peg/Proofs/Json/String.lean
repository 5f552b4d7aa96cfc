import Peg.Proofs.Json.Number

/-!
# Reading strings

A string ends at the first quotation mark that is not escaped, whatever follows, so the
strings of the grammar are those of the syntax without further conditions. An element of
a string is looked at twice by the grammar: a code point that could stand for itself is
read first and then excluded if it is a quotation mark or a backslash.
-/

namespace Peg.Json

open Context

variable {s rest t : Text} {v : Value Action}

/-! ## Hexadecimal digits -/

theorem IsHexDigit.lt {c : CodePoint} {k : Nat} (h : IsHexDigit c k) : k < 16 := by
  cases h <;> omega

theorem hexLetter_text {first : Char} {c : CodePoint} {w : Value Action}
    {a : Nat} (ha : (CodePoint.ofChar first).val = a) :
    Action.hexLetter first (.text [c]) = some w ↔
      (a ≤ c.val ∧ c.val < a + 6) ∧ w = .int (c.val - a + 10 : Nat) := by
  have hint : (10 + (c.val - a : Nat) : Int) = (c.val - a + 10 : Nat) := by omega
  simp only [Action.hexLetter, ha, hint]
  by_cases h : a ≤ c.val ∧ c.val < a + 6
  · rw [if_pos h, Option.some.injEq]
    exact ⟨fun hw => ⟨h, hw.symm⟩, fun hw => hw.2.symm⟩
  · rw [if_neg h]
    exact ⟨nofun, fun hw => absurd hw.1 h⟩

theorem matches_hexDigit (h : context.Matches (hexDigit id) s v rest) :
    ∃ c k, s = c :: rest ∧ IsHexDigit c k ∧ v = .int (k : Nat) := by
  obtain ⟨n, hn, hmatch⟩ := h.choice
  rcases List.mem_cons.mp hn with rfl | hn
  · obtain ⟨c, rfl, hc, rfl⟩ := matches_digit _ _ _ hmatch
    obtain ⟨hlow, hhigh⟩ := CodePoint.isDigit_iff.mp hc
    exact ⟨c, _, rfl, .digit hlow hhigh, rfl⟩
  · rcases List.mem_cons.mp hn with rfl | hn
    · obtain ⟨w, hw, hact⟩ := hmatch.action
      obtain ⟨c, rfl, rfl, -⟩ := hw.range
      obtain ⟨⟨hlow, hhigh⟩, rfl⟩ :=
        (hexLetter_text (a := 0x61) rfl).mp (perform_eq_value.mp hact)
      exact ⟨c, _, rfl, .lower hlow (by omega), rfl⟩
    · obtain rfl := List.mem_singleton.mp hn
      obtain ⟨w, hw, hact⟩ := hmatch.action
      obtain ⟨c, rfl, rfl, -⟩ := hw.range
      obtain ⟨⟨hlow, hhigh⟩, rfl⟩ :=
        (hexLetter_text (a := 0x41) rfl).mp (perform_eq_value.mp hact)
      exact ⟨c, _, rfl, .upper hlow (by omega), rfl⟩

theorem reads_hexDigit {c : CodePoint} {k : Nat} (h : IsHexDigit c k) (s : Text) :
    context.Reads 4 (hexDigit id) (c :: s) (.matched (.int k) s) := by
  have hmiss : ¬ c.isDigit = true → context.Reads 3 (digit id) (c :: s) .mismatch :=
    fun hc => reads_digit_mismatch (.cons hc)
  cases h with
  | digit hlow hhigh => exact .first (reads_digit c (CodePoint.isDigit_iff.mpr ⟨hlow, hhigh⟩) s)
  | lower hlow hhigh =>
      have hdigit : ¬ c.isDigit = true := by
        rw [CodePoint.isDigit_iff]
        omega
      have hrange : context.Reads 1 (span 'a' 'f') (c :: s) (.matched (.text [c]) s) :=
        .range (Int.ofNat_le.mpr hlow) (Int.ofNat_le.mpr hhigh)
      have hletter : context.Reads 2 (.action (span 'a' 'f') .lowerHexDigit) (c :: s) _ :=
        hrange.action_value (perform_eq_value.mpr
          ((hexLetter_text (a := 0x61) rfl).mpr ⟨⟨hlow, by omega⟩, rfl⟩))
      exact .next (hmiss hdigit) (.first (hletter.mono (by omega)))
  | upper hlow hhigh =>
      have hdigit : ¬ c.isDigit = true := by
        rw [CodePoint.isDigit_iff]
        omega
      have hrange : context.Reads 1 (span 'A' 'F') (c :: s) (.matched (.text [c]) s) :=
        .range (Int.ofNat_le.mpr hlow) (Int.ofNat_le.mpr hhigh)
      have hletter : context.Reads 2 (.action (span 'A' 'F') .upperHexDigit) (c :: s) _ :=
        hrange.action_value (perform_eq_value.mpr
          ((hexLetter_text (a := 0x41) rfl).mpr ⟨⟨hlow, by omega⟩, rfl⟩))
      have hlower : context.Reads 2 (.action (span 'a' 'f') .lowerHexDigit) (c :: s)
          .mismatch := by
        refine .action_mismatch (.range_mismatch fun d hd hin => ?_)
        obtain rfl : c = d := Option.some.inj hd
        have hle : 0x61 ≤ c.val := Int.ofNat_le.mp hin.1
        omega
      exact .next (hmiss hdigit) (.next (hlower.mono (by omega))
        (.first (hletter.mono (by omega))))

/-! ## Elements -/

/-- An element of a string between the quotation marks. -/
def element : Node Action := .choice [plain, escape id]

theorem plain_eq : (plain : Node Action) =
    .exclusion (.range 0x20 0x10FFFF) (.oneOf [quotationMark, backslash]) := rfl

/-- The code points that can follow a backslash on their own. -/
def escapeLetters : List CodePoint := escapeMeanings.map fun p => CodePoint.ofChar p.1

/-- An escape by the number of a code point. -/
def unicodeNode : Node Action := .sequence [.literal "u", (hexDigit id).exactly 4]

theorem escape_eq : (escape id : Node Action) =
    .sequence [.literal [backslash], .choice [.oneOf escapeLetters, unicodeNode]] := rfl

theorem element?_escape {e c : Char} (h : (e, c) ∈ escapeMeanings) (w : Value Action) :
    Action.element? (.tuple [w, .text [CodePoint.ofChar e]]) = some [CodePoint.ofChar c] := by
  have hall : ∀ p ∈ escapeMeanings, Action.element? (.tuple [w, .text [CodePoint.ofChar p.1]]) =
      some [CodePoint.ofChar p.2] := by
    simp only [escapeMeanings, List.forall_mem_cons]
    refine ⟨rfl, rfl, rfl, rfl, rfl, rfl, rfl, rfl, ?_⟩
    simp
  exact hall _ h

theorem ofInt?_val (u : CodePoint) : CodePoint.ofInt? (u.val : Nat) = some u := by
  have hlt := u.isLt
  have h : (0 : Int) ≤ (u.val : Nat) ∧ ((u.val : Nat) : Int) < 0x110000 := by omega
  exact dif_pos h

theorem hexNumber?_four (i j k l : Nat) :
    Action.hexNumber? [(.int (i : Nat) : Value Action), .int (j : Nat), .int (k : Nat),
      .int (l : Nat)] = some (((i * 16 + j) * 16 + k) * 16 + l) := by
  have h : Action.hexNumber? [(.int (i : Nat) : Value Action), .int (j : Nat), .int (k : Nat),
      .int (l : Nat)] = some ((((0 * 16 + i) * 16 + j) * 16 + k) * 16 + l) := rfl
  rw [h, Nat.zero_mul, Nat.zero_add]

theorem element?_digits (w x : Value Action) (ds : List (Value Action)) :
    Action.element? (.tuple [w, .tuple [x, .tuple ds]]) =
      (Action.hexNumber? ds).bind fun n => (CodePoint.ofInt? n).bind fun c => some [c] := by
  rw [Action.element?]
  rfl

theorem element?_unicode {i j k l : Nat} {u : CodePoint}
    (hu : u.val = ((i * 16 + j) * 16 + k) * 16 + l) (w x : Value Action) :
    Action.element? (.tuple [w, .tuple [x, .tuple [.int (i : Nat), .int (j : Nat),
      .int (k : Nat), .int (l : Nat)]]]) = some [u] := by
  rw [element?_digits, hexNumber?_four, ← hu, Option.bind_some, ofInt?_val, Option.bind_some]

theorem matches_element (h : context.Matches element s v rest) :
    ∃ t c, s = t ++ rest ∧ IsChar t c ∧ Action.element? v = some [c] := by
  obtain ⟨n, hn, hmatch⟩ := h.choice
  rcases List.mem_cons.mp hn with rfl | hn
  · rw [plain_eq] at hmatch
    obtain ⟨hitem, limit, hforbidden⟩ := hmatch.exclusion
    obtain ⟨c, rfl, rfl, hlow, -⟩ := hitem.range
    have hnot : c ∉ [quotationMark, backslash] := by
      intro hc
      have hread : context.Reads 2 (.oneOf [quotationMark, backslash]) (c :: rest) _ :=
        .oneOf hc
      exact hread.ne_mismatch hforbidden
    refine ⟨[c], c, rfl, .plain (Int.ofNat_le.mp hlow) ?_ ?_, rfl⟩
    · rintro rfl
      simp at hnot
    · rintro rfl
      simp at hnot
  · obtain rfl := List.mem_singleton.mp hn
    rw [escape_eq] at hmatch
    obtain ⟨vs, rfl, w, mid, ws, rfl, hw, x, mid', ws', rfl, hx, rfl, rfl⟩ := hmatch.sequence
    obtain ⟨rfl, rfl⟩ := hw.literal
    obtain ⟨m, hm, hx⟩ := hx.choice
    rcases List.mem_cons.mp hm with rfl | hm
    · obtain ⟨e, rfl, he, rfl⟩ := hx.oneOf
      obtain ⟨⟨e', c⟩, hmem, rfl⟩ := List.mem_map.mp he
      exact ⟨_, CodePoint.ofChar c, rfl, .escape hmem, element?_escape hmem _⟩
    · obtain rfl := List.mem_singleton.mp hm
      obtain ⟨us, rfl, u, mid, ws, rfl, hu, ds, last, ws', rfl, hds, rfl, rfl⟩ := hx.sequence
      obtain ⟨rfl, rfl⟩ := hu.literal
      obtain ⟨ds, rfl, a, m₁, _, rfl, h₁, b, m₂, _, rfl, h₂, c, m₃, _, rfl, h₃, d, m₄, _, rfl, h₄,
        rfl, rfl⟩ := hds.sequence
      obtain ⟨a, i, rfl, ha, rfl⟩ := matches_hexDigit h₁
      obtain ⟨b, j, rfl, hb, rfl⟩ := matches_hexDigit h₂
      obtain ⟨c, k, rfl, hc, rfl⟩ := matches_hexDigit h₃
      obtain ⟨d, l, rfl, hd, rfl⟩ := matches_hexDigit h₄
      have hlt : ((i * 16 + j) * 16 + k) * 16 + l < 0x110000 := by
        have hi := ha.lt
        have hj := hb.lt
        have hk := hc.lt
        have hl := hd.lt
        omega
      exact ⟨_, ⟨_, hlt⟩, rfl, .unicode ha hb hc hd rfl, element?_unicode rfl _ _⟩

/-- A quotation mark or a backslash does not stand for itself. -/
theorem plain_miss {c : CodePoint} (hc : c ∈ [quotationMark, backslash]) (s : Text) :
    context.Reads 3 plain (c :: s) .mismatch := by
  have hval : c.val = 0x22 ∨ c.val = 0x5C := by
    rcases (by simpa using hc : c = quotationMark ∨ c = backslash) with rfl | rfl
    · exact .inl rfl
    · exact .inr rfl
  have hrange : context.Reads 1 (.range 0x20 0x10FFFF) (c :: s) (.matched (.text [c]) s) :=
    .range (by omega) (by omega)
  rw [plain_eq]
  exact .exclusion_forbidden (hrange.mono (by omega)) (.oneOf hc)

theorem reads_element {c : CodePoint} (h : IsChar t c) (s : Text) :
    ∃ v, context.Reads 9 element (t ++ s) (.matched v s) ∧ Action.element? v = some [c] := by
  cases h with
  | plain hlow hquote hslash =>
      have hrange : context.Reads 1 (.range 0x20 0x10FFFF) (c :: s) (.matched (.text [c]) s) :=
        .range (Int.ofNat_le.mpr hlow) (by omega)
      have hnot : EndsRun (· ∈ [quotationMark, backslash]) (c :: s) :=
        .cons (by simp [hquote, hslash])
      have hplain := Reads.exclusion (hrange.mono (by omega)) (.oneOf_mismatch hnot)
      rw [← plain_eq] at hplain
      exact ⟨_, hplain.first.mono (by omega), rfl⟩
  | @escape e c hmem =>
      have hslash : context.Reads 1 (.literal [backslash])
          (backslash :: CodePoint.ofChar e :: s) _ := .literal [backslash] _
      have hletter : context.Reads 2 (.oneOf escapeLetters) (CodePoint.ofChar e :: s) _ :=
        .oneOf (List.mem_map.mpr ⟨(e, c), hmem, rfl⟩)
      have hescape : context.Reads 4 (escape id) (backslash :: CodePoint.ofChar e :: s)
          (.matched _ s) :=
        .sequence (.cons (hslash.mono (by omega)) (.cons hletter.first
          (ReadsAll.nil.mono (by omega))))
      exact ⟨_, .next ((plain_miss (by simp) _).mono (by omega : 3 ≤ 8))
        (.first (hescape.mono (by omega))), element?_escape hmem _⟩
  | @unicode a b c d u i j k l ha hb hc hd hu =>
      have hslash : context.Reads 1 (.literal [backslash])
          (backslash :: CodePoint.ofChar 'u' :: a :: b :: c :: d :: s) _ :=
        .literal [backslash] _
      have hletter : context.Reads 1 (.literal "u")
          (CodePoint.ofChar 'u' :: a :: b :: c :: d :: s) _ := .literal "u" _
      have hdigits : context.Reads 5 ((hexDigit id).exactly 4) (a :: b :: c :: d :: s) _ :=
        .sequence (.cons (reads_hexDigit ha _) (.cons (reads_hexDigit hb _)
          (.cons (reads_hexDigit hc _) (.cons (reads_hexDigit hd _)
            (ReadsAll.nil.mono (by omega))))))
      have hnumber : context.Reads 6 unicodeNode
          (CodePoint.ofChar 'u' :: a :: b :: c :: d :: s) _ :=
        .sequence (.cons (hletter.mono (by omega)) (.cons hdigits
          (ReadsAll.nil.mono (by omega))))
      have hmiss : context.Reads 2 (.oneOf escapeLetters)
          (CodePoint.ofChar 'u' :: a :: b :: c :: d :: s) .mismatch :=
        .oneOf_mismatch (.cons (by decide))
      have hescape : context.Reads 8 (escape id)
          (backslash :: CodePoint.ofChar 'u' :: a :: b :: c :: d :: s) (.matched _ s) :=
        .sequence (.cons (hslash.mono (by omega)) (.cons
          (.next (hmiss.mono (by omega)) hnumber.first) (ReadsAll.nil.mono (by omega))))
      exact ⟨_, .next ((plain_miss (by simp) _).mono (by omega)) (.first hescape),
        element?_unicode hu _ _⟩

/-! ## Strings -/

/-- The text of a list of elements. -/
def elementsText? (vs : List (Value Action)) : Option Text :=
  (vs.mapM Action.element?).map List.flatten

theorem elementsText?_cons {c : CodePoint} {u : Text} {vs : List (Value Action)}
    (hv : Action.element? v = some [c]) (hvs : elementsText? vs = some u) :
    elementsText? (v :: vs) = some (c :: u) := by
  obtain ⟨ts, hts, rfl⟩ := Option.map_eq_some_iff.mp hvs
  simp [elementsText?, List.mapM_cons, hv, hts]

theorem matches_elements {vs : List (Value Action)}
    (h : context.MatchesMany element s vs rest) :
    ∃ t u, s = t ++ rest ∧ AreChars t u ∧ elementsText? vs = some u := by
  induction vs generalizing s with
  | nil =>
      obtain rfl : rest = s := h
      exact ⟨[], [], rfl, .nil, rfl⟩
  | cons v vs ih =>
      obtain ⟨mid, hv, hvs⟩ := h
      obtain ⟨t, c, rfl, ht, hc⟩ := matches_element hv
      obtain ⟨u, cs, rfl, hu, hcs⟩ := ih hvs
      exact ⟨t ++ u, c :: cs, by simp, .cons ht hu, elementsText?_cons hc hcs⟩

theorem IsChar.ne_nil {c : CodePoint} (h : IsChar t c) : t ≠ [] := by
  cases h <;> simp

theorem reads_elements {u : Text} (h : AreChars t u) (s : Text) :
    ∃ vs, context.ReadsMany 9 element (t ++ quotationMark :: s) vs (quotationMark :: s) ∧
      elementsText? vs = some u := by
  induction h with
  | nil =>
      have hescape : context.Reads 2 (escape id) (quotationMark :: s) .mismatch := by
        refine .sequence_mismatch (.here (.literal_mismatch (not_prefix_of_head ?_)))
        exact fun hhead => absurd (Option.some.inj hhead) (by decide)
      have hmiss : context.Reads 9 element (quotationMark :: s) .mismatch :=
        .next ((plain_miss (by simp) s).mono (by omega)) (.next (hescape.mono (by omega))
          (.mono .choice_nil (by omega)))
      exact ⟨[], .stop hmiss, rfl⟩
  | @cons t u c cs ht hu ih =>
      obtain ⟨v, hv, hc⟩ := reads_element ht (u ++ quotationMark :: s)
      obtain ⟨vs, hvs, hcs⟩ := ih
      rw [List.append_assoc]
      refine ⟨v :: vs, .step hv ?_ hvs, elementsText?_cons hc hcs⟩
      have hpos : 0 < t.length := List.length_pos_iff.mpr ht.ne_nil
      simp only [List.length_append]
      omega

theorem string_eq : (string id : Node Action) =
    .sequence [.literal [quotationMark], .many element, .literal [quotationMark]] := rfl

theorem denote_string {vs : List (Value Action)} {w x u : Value Action} :
    Action.string.denote? (.tuple [w, .list vs, x]) = some u ↔
      ∃ t, elementsText? vs = some t ∧ u = .text t := by
  have hdenote : Action.string.denote? (.tuple [w, .list vs, x]) =
      (vs.mapM Action.element?).bind fun ts => some (.text ts.flatten) := rfl
  rw [hdenote, elementsText?]
  cases vs.mapM Action.element? <;> simp [eq_comm]

theorem matches_rawString (h : context.Matches (string id) s v rest) :
    ∃ t name, s = t ++ rest ∧ IsString t name ∧ Action.string.denote? v = some (.text name) := by
  rw [string_eq] at h
  obtain ⟨vs, rfl, w, mid, ws, rfl, hw, es, mid', ws', rfl, hes, x, last, ws'', rfl, hx, rfl, rfl⟩ :=
    h.sequence
  obtain ⟨rfl, rfl⟩ := hw.literal
  obtain ⟨rfl, rfl⟩ := hx.literal
  obtain ⟨us, rfl, hus⟩ := hes.many
  obtain ⟨t, u, rfl, ht, hu⟩ := matches_elements hus
  exact ⟨_, u, by simp, .intro ht, denote_string.mpr ⟨u, hu, rfl⟩⟩

theorem matches_string (h : context.Matches (stringValue id) s v rest) :
    ∃ t name, s = t ++ rest ∧ IsString t name ∧ v = .text name := by
  obtain ⟨raw, hraw, hact⟩ := h.action
  obtain ⟨t, name, hs, ht, hname⟩ := matches_rawString hraw
  rw [perform_eq_value, id_eq, hname, Option.some.injEq] at hact
  exact ⟨t, name, hs, ht, hact.symm⟩

theorem reads_string {name : Text} (h : IsString t name) (s : Text) :
    context.Reads 12 (stringValue id) (t ++ s) (.matched (.text name) s) := by
  obtain ⟨ht⟩ := h
  next t =>
  obtain ⟨vs, hvs, htext⟩ := reads_elements ht s
  have hopen : context.Reads 1 (.literal [quotationMark])
      (quotationMark :: (t ++ quotationMark :: s)) _ := .literal [quotationMark] _
  have hclose : context.Reads 1 (.literal [quotationMark]) (quotationMark :: s) _ :=
    .literal [quotationMark] s
  have hraw : context.Reads 11 (string id) (quotationMark :: (t ++ quotationMark :: s)) _ :=
    .sequence (.cons (hopen.mono (by omega)) (.cons (.many hvs)
      (.cons (hclose.mono (by omega)) (ReadsAll.nil.mono (by omega)))))
  rw [List.cons_append, List.append_assoc, List.singleton_append]
  exact hraw.action_value (perform_eq_value.mpr (denote_string.mpr ⟨_, htext, rfl⟩))

end Peg.Json
