import Peg.Json.Grammar
import Peg.Proofs.Json.Syntax
import Peg.Proofs.Lookahead

/-!
# Reading blanks and numbers

The leaves of the JSON grammar that are made of runs of code points. What the grammar
matches is what the syntax describes, and its actions compute the parts of a number
from the digits. The other direction says under which circumstances the grammar finds a
given number: nothing may follow it that would be taken for more of it.
-/

namespace Peg.Json

open Context

variable {s rest t : Text} {v : Value Action}

theorem perform_eq_value {a : Action} {w : Value Action} :
    context.perform a v = .value w ↔ a.denote? v = some w := by
  show a.perform v = .value w ↔ _
  unfold Action.perform
  cases a.denote? v <;> simp

/-! ## Blanks -/

theorem whitespace_eq : (whitespace : Node Action) = .many (.oneOf [CodePoint.ofChar ' ',
    CodePoint.ofChar '\n', CodePoint.ofChar '\r', CodePoint.ofChar '\t']) := rfl

theorem isBlank_iff {c : CodePoint} :
    IsBlank c ↔ c ∈ [CodePoint.ofChar ' ', CodePoint.ofChar '\n', CodePoint.ofChar '\r',
      CodePoint.ofChar '\t'] := by
  simp only [IsBlank, List.mem_cons, List.not_mem_nil, or_false]
  tauto

theorem matches_whitespace (h : context.Matches whitespace s v rest) :
    ∃ w, s = w ++ rest ∧ AreBlanks w := by
  rw [whitespace_eq] at h
  obtain ⟨w, hs, hw⟩ := h.run_oneOf
  exact ⟨w, hs, fun c hc => isBlank_iff.mpr (hw c hc)⟩

/-- The text does not go on with a blank. -/
abbrev NoBlank (s : Text) : Prop := EndsRun IsBlank s

theorem reads_whitespace {w : Text} (hw : AreBlanks w) (hs : NoBlank s) :
    ∃ v, context.Reads 3 whitespace (w ++ s) (.matched v s) := by
  rw [whitespace_eq]
  refine Reads.run_oneOf (fun c hc => isBlank_iff.mp (hw c hc)) fun c hhead hc => ?_
  exact hs c hhead (isBlank_iff.mpr hc)

/-! ## Digits -/

/-- A digit as the grammar reports it. -/
def digitResult (c : CodePoint) : Value Action := .int c.digitValue

theorem denote_digit {c : CodePoint} {w : Value Action} :
    Action.digit.denote? (.text [c]) = some w ↔ c.isDigit = true ∧ w = digitResult c := by
  show (if c.isDigit then some (digitResult c) else none) = some w ↔ _
  by_cases hc : c.isDigit = true
  · rw [if_pos hc, Option.some.injEq]
    exact ⟨fun h => ⟨hc, h.symm⟩, fun h => h.2.symm⟩
  · rw [if_neg hc]
    exact ⟨nofun, fun h => absurd h.1 hc⟩

theorem matches_nonzeroDigit (h : context.Matches (nonzeroDigit id) s v rest) :
    ∃ c, s = c :: rest ∧ (0x31 ≤ c.val ∧ c.val ≤ 0x39) ∧ v = digitResult c := by
  obtain ⟨w, hw, hact⟩ := h.action
  obtain ⟨c, rfl, rfl, hlow, hhigh⟩ := hw.range
  have hval := (denote_digit.mp (perform_eq_value.mp hact)).2
  refine ⟨c, rfl, ⟨?_, ?_⟩, hval⟩
  · exact Int.ofNat_le.mp hlow
  · exact Int.ofNat_le.mp hhigh

theorem matches_digit (s : Text) (v : Value Action) (rest : Text)
    (h : context.Matches (digit id) s v rest) :
    ∃ c, s = c :: rest ∧ c.isDigit = true ∧ v = digitResult c := by
  obtain ⟨n, hn, hmatch⟩ := h.choice
  rcases List.mem_cons.mp hn with rfl | hn
  · obtain ⟨w, hw, hact⟩ := hmatch.action
    obtain ⟨rfl, rfl⟩ := hw.literal
    exact ⟨0x30, rfl, denote_digit.mp (perform_eq_value.mp hact)⟩
  · obtain rfl := List.mem_singleton.mp hn
    obtain ⟨c, rfl, ⟨hlow, hhigh⟩, hval⟩ := matches_nonzeroDigit hmatch
    exact ⟨c, rfl, CodePoint.isDigit_iff.mpr ⟨by omega, hhigh⟩, hval⟩

theorem reads_nonzeroDigit {c : CodePoint} (hlow : 0x31 ≤ c.val) (hhigh : c.val ≤ 0x39) :
    context.Reads 2 (nonzeroDigit id) (c :: s) (.matched (digitResult c) s) := by
  have hrange : context.Reads 1 (span '1' '9') (c :: s) (.matched (.text [c]) s) :=
    .range (Int.ofNat_le.mpr hlow) (Int.ofNat_le.mpr hhigh)
  have hdigit : c.isDigit = true := CodePoint.isDigit_iff.mpr ⟨by omega, hhigh⟩
  exact hrange.action_value (perform_eq_value.mpr (denote_digit.mpr ⟨hdigit, rfl⟩))

theorem reads_digit (c : CodePoint) (hc : c.isDigit = true) (s : Text) :
    context.Reads 3 (digit id) (c :: s) (.matched (digitResult c) s) := by
  have hbounds := CodePoint.isDigit_iff.mp hc
  by_cases hzero : c = 0x30
  · subst hzero
    have hread : context.Reads 1 (.literal [0x30]) (0x30 :: s) (.matched (.text [0x30]) s) :=
      .literal [0x30] s
    exact .first (hread.action_value (perform_eq_value.mpr rfl))
  · have hlow : 0x31 ≤ c.val := by
      have hne : c.val ≠ 0x30 := fun h => hzero (Fin.ext h)
      omega
    refine .next (.action_mismatch (.literal_mismatch (not_prefix_of_head ?_)))
      (.first (reads_nonzeroDigit hlow hbounds.2))
    intro hhead
    exact hzero (Option.some.inj hhead)

theorem reads_digit_mismatch (hs : NoDigit s) :
    context.Reads 3 (digit id) s .mismatch := by
  refine .next (.action_mismatch (.literal_mismatch (not_prefix_of_head ?_)))
    (.next (.action_mismatch (.range_mismatch ?_)) (.mono .choice_nil (by omega)))
  · intro hhead
    exact absurd (hs _ hhead) (by decide)
  · intro c hhead ⟨hlow, hhigh⟩
    have hbounds : 0x31 ≤ c.val ∧ c.val ≤ 0x39 :=
      ⟨Int.ofNat_le.mp hlow, Int.ofNat_le.mp hhigh⟩
    have hdigit : c.isDigit = true := CodePoint.isDigit_iff.mpr ⟨by omega, by omega⟩
    exact hs c hhead hdigit

theorem matches_digits {vs : List (Value Action)}
    (h : context.MatchesMany (digit id) s vs rest) :
    ∃ t, s = t ++ rest ∧ AreDigits t ∧ vs = t.map digitResult :=
  h.run matches_digit

theorem reads_digits (ht : AreDigits t) (hs : NoDigit s) :
    context.ReadsMany 3 (digit id) (t ++ s) (t.map digitResult) s :=
  .run reads_digit ht (reads_digit_mismatch hs)

theorem digits?_map (t : Text) :
    NumberParts.digits? (t.map digitResult) = some (digitValues t) := by
  induction t with
  | nil => rfl
  | cons c t ih =>
      show (NumberParts.digits? (t.map digitResult)).map (c.digitValue :: ·) = _
      rw [ih]
      rfl

/-! ## Runs of at least one digit -/

theorem matches_someDigits (h : context.Matches (digit id).oneOrMore s v rest) :
    ∃ t, s = t ++ rest ∧ AreDigits t ∧ t ≠ [] ∧
      NumberParts.someDigits? v = some (digitValues t) := by
  obtain ⟨vs, rfl, first, mid, ws, rfl, hfirst, rest', last, ws', rfl, hrest, rfl, rfl⟩ :=
    h.sequence
  obtain ⟨c, rfl, hc, rfl⟩ := matches_digit _ _ _ hfirst
  obtain ⟨us, rfl, hus⟩ := hrest.many
  obtain ⟨t, rfl, ht, rfl⟩ := matches_digits hus
  refine ⟨c :: t, rfl, ?_, by simp, digits?_map (c :: t)⟩
  intro d hd
  rcases List.mem_cons.mp hd with rfl | hd
  · exact hc
  · exact ht d hd

theorem reads_someDigits (ht : AreDigits t) (hne : t ≠ []) (hs : NoDigit s) :
    ∃ v, context.Reads 5 (digit id).oneOrMore (t ++ s) (.matched v s) ∧
      NumberParts.someDigits? v = some (digitValues t) := by
  obtain ⟨c, t, rfl⟩ := List.exists_cons_of_ne_nil hne
  have hfirst := reads_digit c (ht c (by simp)) (t ++ s)
  have ht' : AreDigits t := fun d hd => ht d (by simp [hd])
  have hrest := Reads.many (reads_digits ht' hs)
  exact ⟨_, .sequence (.cons (hfirst.mono (by omega)) (.cons hrest (ReadsAll.nil.mono (by omega)))),
    digits?_map (c :: t)⟩

/-! ## The parts of a number -/

namespace NumberParts

variable {α : Type}

/-- The digits before the point. -/
def wholeOf? : Value α → Option (List Nat)
  | .text _ => some [0]
  | v => someDigits? v

def fractionOf? : Value α → Option (Option (List Nat))
  | .null => some none
  | .tuple [_, ds] => (someDigits? ds).map some
  | _ => none

def exponentOf? : Value α → Option (Option (Bool × List Nat))
  | .null => some none
  | .tuple [_, minus, ds] => (someDigits? ds).map fun ds => some (isMinus minus, ds)
  | _ => none

theorem wholeOf?_bind (w : Value α) (k : List Nat → Option NumberParts) :
    wholeOf? w >>= k = match w with
      | .text _ => some [0] >>= k
      | v => someDigits? v >>= k := by
  unfold wholeOf?
  split <;> rfl

theorem fractionOf?_bind (f : Value α) (k : Option (List Nat) → Option NumberParts) :
    fractionOf? f >>= k = match f with
      | .null => some none >>= k
      | .tuple [_, ds] => (someDigits? ds).map some >>= k
      | _ => none >>= k := by
  unfold fractionOf?
  split <;> rfl

theorem exponentOf?_bind (e : Value α) (k : Option (Bool × List Nat) → Option NumberParts) :
    exponentOf? e >>= k = match e with
      | .null => some none >>= k
      | .tuple [_, minus, ds] => (someDigits? ds).map (fun ds => some (isMinus minus, ds)) >>= k
      | _ => none >>= k := by
  unfold exponentOf?
  split <;> rfl

theorem ofRaw?_of_parts {sign w f e : Value α} {p : NumberParts}
    (hsign : isMinus sign = p.negative) (hw : wholeOf? w = some p.whole)
    (hf : fractionOf? f = some p.fraction) (he : exponentOf? e = some p.exponent) :
    ofRaw? (.tuple [sign, w, f, e]) = some p := by
  have hraw : ofRaw? (.tuple [sign, w, f, e]) =
      wholeOf? w >>= fun whole => fractionOf? f >>= fun fraction =>
        exponentOf? e >>= fun exponent =>
          some ⟨isMinus sign, whole, fraction, exponent⟩ := by
    simp only [exponentOf?_bind]
    simp only [fractionOf?_bind]
    rw [wholeOf?_bind]
    rfl
  rw [hraw, hw, hf, he, hsign]
  rfl

end NumberParts

/-- The integer part of the number node. -/
def wholeNode : Node Action :=
  .choice [.literal "0", .sequence [nonzeroDigit id, .many (digit id)]]

def fractionNode : Node Action := .optional (.sequence [.literal ".", (digit id).oneOrMore])

def exponentNode : Node Action :=
  .optional (.sequence [.oneOf [CodePoint.ofChar 'e', CodePoint.ofChar 'E'],
    .optional (.oneOf [CodePoint.ofChar '+', CodePoint.ofChar '-']), (digit id).oneOrMore])

theorem number_eq : (number id : Node Action) =
    .sequence [.optional (.literal "-"), wholeNode, fractionNode, exponentNode] := rfl

theorem matches_whole (h : context.Matches wholeNode s v rest) :
    ∃ t ds, s = t ++ rest ∧ IsWhole t ds ∧ NumberParts.wholeOf? v = some ds := by
  obtain ⟨n, hn, hmatch⟩ := h.choice
  rcases List.mem_cons.mp hn with rfl | hn
  · obtain ⟨rfl, rfl⟩ := hmatch.literal
    exact ⟨_, _, rfl, .zero, rfl⟩
  · obtain rfl := List.mem_singleton.mp hn
    obtain ⟨vs, rfl, first, mid, ws, rfl, hfirst, more, last, ws', rfl, hmore, rfl, rfl⟩ :=
      hmatch.sequence
    obtain ⟨c, rfl, ⟨hlow, hhigh⟩, rfl⟩ := matches_nonzeroDigit hfirst
    obtain ⟨us, rfl, hus⟩ := hmore.many
    obtain ⟨t, rfl, ht, rfl⟩ := matches_digits hus
    exact ⟨c :: t, _, rfl, .positive hlow hhigh ht, digits?_map (c :: t)⟩

theorem reads_whole {ds : List Nat} (ht : IsWhole t ds) (hs : NoDigit s) :
    ∃ v, context.Reads 6 wholeNode (t ++ s) (.matched v s) ∧
      NumberParts.wholeOf? v = some ds := by
  cases ht with
  | zero =>
      have hread : context.Reads 1 (.literal "0") ("0" ++ s) (.matched (.text "0") s) :=
        .literal "0" s
      exact ⟨_, hread.first.mono (by omega), rfl⟩
  | @positive c t hlow hhigh ht =>
      have hfirst : context.Reads 2 (nonzeroDigit id) (c :: (t ++ s)) _ :=
        reads_nonzeroDigit hlow hhigh
      have hmore := Reads.many (reads_digits ht hs)
      have hzero : (c :: (t ++ s)).head? ≠ some 0x30 := by
        intro hhead
        rw [Option.some.inj hhead] at hlow
        exact absurd hlow (by decide)
      refine ⟨_, .next ((Reads.literal_mismatch (not_prefix_of_head hzero)).mono (by omega))
        (.first (.sequence (.cons (hfirst.mono (by omega)) (.cons hmore
          (ReadsAll.nil.mono (by omega)))))), digits?_map (c :: t)⟩

theorem matches_fraction (h : context.Matches fractionNode s v rest) :
    ∃ t o, s = t ++ rest ∧ IsFraction t o ∧ NumberParts.fractionOf? v = some o := by
  rcases h.optional with h | ⟨rfl, rfl⟩
  · obtain ⟨vs, rfl, point, mid, ws, rfl, hpoint, ds, last, ws', rfl, hds, rfl, rfl⟩ :=
      h.sequence
    obtain ⟨rfl, rfl⟩ := hpoint.literal
    obtain ⟨t, rfl, ht, hne, hval⟩ := matches_someDigits hds
    exact ⟨_, _, rfl, .digits ht hne, by simp only [NumberParts.fractionOf?, hval]; rfl⟩
  · exact ⟨[], none, rfl, .absent, rfl⟩

theorem reads_fraction {o : Option (List Nat)} (ht : IsFraction t o) (hs : NoDigit s)
    (hpoint : s.head? ≠ some (CodePoint.ofChar '.')) :
    ∃ v, context.Reads 7 fractionNode (t ++ s) (.matched v s) ∧
      NumberParts.fractionOf? v = some o := by
  cases ht with
  | absent =>
      have hmiss : context.Reads 6 (.sequence [.literal ".", (digit id).oneOrMore]) s .mismatch :=
        Reads.mono (.sequence_mismatch (.here (.literal_mismatch (not_prefix_of_head hpoint))))
          (by omega)
      exact ⟨_, hmiss.optional_absent (by omega), rfl⟩
  | @digits t ht hne =>
      obtain ⟨v, hv, hval⟩ := reads_someDigits ht hne hs
      have hread : context.Reads 1 (.literal ".") ("." ++ (t ++ s)) _ := .literal "." (t ++ s)
      exact ⟨_, .first (.sequence (.cons (hread.mono (by omega)) (.cons hv
        (ReadsAll.nil.mono (by omega))))), by simp only [NumberParts.fractionOf?, hval]; rfl⟩

theorem matches_exponent (h : context.Matches exponentNode s v rest) :
    ∃ t o, s = t ++ rest ∧ IsExponent t o ∧ NumberParts.exponentOf? v = some o := by
  rcases h.optional with h | ⟨rfl, rfl⟩
  · obtain ⟨vs, rfl, e, mid, ws, rfl, he, sign, mid', ws', rfl, hsign, ds, last, ws'', rfl, hds,
      rfl, rfl⟩ := h.sequence
    obtain ⟨c, rfl, hc, rfl⟩ := he.oneOf
    obtain ⟨t, rfl, ht, hne, hval⟩ := matches_someDigits hds
    have hletter : ∃ l : Char, (l = 'e' ∨ l = 'E') ∧ c = CodePoint.ofChar l := by
      rcases (by simpa using hc : c = CodePoint.ofChar 'e' ∨ c = CodePoint.ofChar 'E')
        with rfl | rfl
      · exact ⟨'e', .inl rfl, rfl⟩
      · exact ⟨'E', .inr rfl, rfl⟩
    obtain ⟨l, hl, rfl⟩ := hletter
    have hsigned : ∃ u, mid = u ++ (t ++ rest) ∧
        IsExponentSign u (NumberParts.isMinus sign) := by
      rcases hsign.optional with h | ⟨rfl, rfl⟩
      · obtain ⟨d, rfl, hd, rfl⟩ := h.oneOf
        rcases (by simpa using hd : d = CodePoint.ofChar '+' ∨ d = CodePoint.ofChar '-')
          with rfl | rfl
        · exact ⟨"+", rfl, .plus⟩
        · exact ⟨"-", rfl, .minus⟩
      · exact ⟨[], rfl, .absent⟩
    obtain ⟨u, rfl, hu⟩ := hsigned
    exact ⟨CodePoint.ofChar l :: (u ++ t), _, by simp, .digits hl hu ht hne,
      by simp only [NumberParts.exponentOf?, hval]; rfl⟩
  · exact ⟨[], none, rfl, .absent, rfl⟩

/-- The text does not go on with the letter of an exponent. -/
abbrev NoExponent (s : Text) : Prop :=
  EndsRun (· ∈ [CodePoint.ofChar 'e', CodePoint.ofChar 'E']) s

theorem reads_exponent {o : Option (Bool × List Nat)} (ht : IsExponent t o) (hs : NoDigit s)
    (hexponent : NoExponent s) :
    ∃ v, context.Reads 7 exponentNode (t ++ s) (.matched v s) ∧
      NumberParts.exponentOf? v = some o := by
  cases ht with
  | absent =>
      have hmiss : context.Reads 6 (.sequence [.oneOf [CodePoint.ofChar 'e', CodePoint.ofChar 'E'],
          .optional (.oneOf [CodePoint.ofChar '+', CodePoint.ofChar '-']), (digit id).oneOrMore])
          s .mismatch :=
        Reads.mono (.sequence_mismatch (.here (.oneOf_mismatch hexponent))) (by omega)
      exact ⟨_, hmiss.optional_absent (by omega), rfl⟩
  | @digits e sign t negative he hsign ht hne =>
      obtain ⟨v, hv, hval⟩ := reads_someDigits ht hne hs
      have hletter : context.Reads 2 (.oneOf [CodePoint.ofChar 'e', CodePoint.ofChar 'E'])
          (CodePoint.ofChar e :: (sign ++ (t ++ s))) _ := .oneOf (by
        rcases he with rfl | rfl <;> decide)
      have hmark : ∃ w, context.Reads 3
          (.optional (.oneOf [CodePoint.ofChar '+', CodePoint.ofChar '-'])) (sign ++ (t ++ s))
          (.matched w (t ++ s)) ∧ NumberParts.isMinus w = negative := by
        cases hsign with
        | absent =>
            have hnone : EndsRun (· ∈ [CodePoint.ofChar '+', CodePoint.ofChar '-']) (t ++ s) := by
              obtain ⟨c, t, rfl⟩ := List.exists_cons_of_ne_nil hne
              refine .cons fun hc => ?_
              have hdigit := ht c (by simp)
              revert hdigit
              rcases (by simpa using hc : c = CodePoint.ofChar '+' ∨ c = CodePoint.ofChar '-')
                with rfl | rfl <;> decide
            exact ⟨_, (Reads.oneOf_mismatch hnone).optional_absent (by omega), rfl⟩
        | plus => exact ⟨_, .optional (.oneOf (c := CodePoint.ofChar '+') (by simp)), rfl⟩
        | minus => exact ⟨_, .optional (.oneOf (c := CodePoint.ofChar '-') (by simp)), rfl⟩
      obtain ⟨w, hw, rfl⟩ := hmark
      have hall := ReadsAll.cons (hletter.mono (by omega : 2 ≤ 5))
        (.cons (hw.mono (by omega)) (.cons hv (ReadsAll.nil.mono (by omega))))
      rw [List.cons_append, List.append_assoc]
      refine ⟨_, .optional (.sequence hall), ?_⟩
      simp only [NumberParts.exponentOf?, hval]
      rfl

/-! ## Numbers -/

theorem matches_rawNumber (h : context.Matches (number id) s v rest) :
    ∃ t p, s = t ++ rest ∧ IsNumber t p ∧ NumberParts.ofRaw? v = some p := by
  rw [number_eq] at h
  obtain ⟨vs, rfl, sign, mid₁, ws₁, rfl, hsign, w, mid₂, ws₂, rfl, hw, f, mid₃, ws₃, rfl, hf,
    e, mid₄, ws₄, rfl, he, rfl, rfl⟩ := h.sequence
  obtain ⟨tw, whole, rfl, htw, hwval⟩ := matches_whole hw
  obtain ⟨tf, fraction, rfl, htf, hfval⟩ := matches_fraction hf
  obtain ⟨te, exponent, rfl, hte, heval⟩ := matches_exponent he
  have hsigned : ∃ u p, s = u ++ rest ∧ IsNumber u p ∧
      p = ⟨NumberParts.isMinus sign, whole, fraction, exponent⟩ := by
    rcases hsign.optional with h | ⟨rfl, rfl⟩
    · obtain ⟨rfl, rfl⟩ := h.literal
      exact ⟨_, _, by simp only [List.append_assoc], .negative htw htf hte, rfl⟩
    · exact ⟨_, _, by simp only [List.append_assoc], .positive htw htf hte, rfl⟩
  obtain ⟨u, p, hs, hp, rfl⟩ := hsigned
  exact ⟨u, _, hs, hp, NumberParts.ofRaw?_of_parts rfl hwval hfval heval⟩

theorem matches_number (h : context.Matches (numberValue id) s v rest) :
    ∃ t p, s = t ++ rest ∧ IsNumber t p ∧ v = p.toValue := by
  obtain ⟨raw, hraw, hact⟩ := h.action
  obtain ⟨t, p, hs, hp, hparts⟩ := matches_rawNumber hraw
  rw [perform_eq_value, id_eq, Action.denote?, hparts, Option.map_some, Option.some.injEq] at hact
  exact ⟨t, p, hs, hp, hact.symm⟩

/-- Nothing of the text could belong to a number before it. -/
structure EndsNumber (s : Text) : Prop where
  digit : NoDigit s
  point : s.head? ≠ some (CodePoint.ofChar '.')
  exponent : NoExponent s

theorem EndsNumber.after_exponent {o : Option (Bool × List Nat)} (h : EndsNumber s)
    (ht : IsExponent t o) :
    NoDigit (t ++ s) ∧ (t ++ s).head? ≠ some (CodePoint.ofChar '.') := by
  cases ht with
  | absent => exact ⟨h.digit, h.point⟩
  | digits he =>
      constructor
      · rcases he with rfl | rfl <;> exact .cons (by decide)
      · intro hc
        have hletter := Option.some.inj hc
        rcases he with rfl | rfl <;> exact absurd hletter (by decide)

theorem noDigit_after_fraction {o : Option (List Nat)} (hs : NoDigit s) (ht : IsFraction t o) :
    NoDigit (t ++ s) := by
  cases ht with
  | absent => exact hs
  | digits => exact .cons (by decide)

/-- The parts after the sign, with what their results say. -/
theorem reads_parts {w f e : Text} {p : NumberParts} (hw : IsWhole w p.whole)
    (hf : IsFraction f p.fraction) (he : IsExponent e p.exponent) (hs : EndsNumber s) :
    ∃ vs, context.ReadsAll 7 [wholeNode, fractionNode, exponentNode]
      (w ++ (f ++ (e ++ s))) (.matched vs s) ∧
      ∀ sign, NumberParts.isMinus sign = p.negative →
        NumberParts.ofRaw? (.tuple (sign :: vs)) = some p := by
  obtain ⟨hdigit, hpoint⟩ := hs.after_exponent he
  obtain ⟨vw, hvw, hwval⟩ := reads_whole hw (noDigit_after_fraction hdigit hf)
  obtain ⟨vf, hvf, hfval⟩ := reads_fraction hf hdigit hpoint
  obtain ⟨ve, hve, heval⟩ := reads_exponent he hs.digit hs.exponent
  exact ⟨[vw, vf, ve], .cons (hvw.mono (by omega)) (.cons hvf (.cons hve
    (ReadsAll.nil.mono (by omega)))), fun sign hsign =>
      NumberParts.ofRaw?_of_parts hsign hwval hfval heval⟩

theorem IsWhole.head?_ne_minus {ds : List Nat} (h : IsWhole t ds) :
    (t ++ s).head? ≠ some (CodePoint.ofChar '-') := by
  intro hhead
  cases h with
  | zero => exact absurd (Option.some.inj hhead) (by decide)
  | positive hlow =>
      rw [Option.some.inj hhead] at hlow
      exact absurd hlow (by decide)

/-- A number is read in full where it ends. -/
theorem reads_number {p : NumberParts} (ht : IsNumber t p) (hs : EndsNumber s) :
    context.Reads 9 (numberValue id) (t ++ s) (.matched p.toValue s) := by
  have hraw : ∃ raw, context.Reads 8 (number id) (t ++ s) (.matched raw s) ∧
      NumberParts.ofRaw? raw = some p := by
    rw [number_eq]
    cases ht with
    | @positive w f e whole fraction exponent hw hf he =>
        obtain ⟨vs, hvs, hval⟩ := reads_parts (p := ⟨false, _, _, _⟩) hw hf he hs
        have hminus : context.Reads 1 (.literal "-") (w ++ (f ++ (e ++ s))) .mismatch :=
          .literal_mismatch (not_prefix_of_head hw.head?_ne_minus)
        rw [List.append_assoc, List.append_assoc]
        exact ⟨_, .sequence (.cons ((hminus.optional_absent (by omega)).mono (by omega)) hvs),
          hval _ rfl⟩
    | @negative w f e whole fraction exponent hw hf he =>
        obtain ⟨vs, hvs, hval⟩ := reads_parts (p := ⟨true, _, _, _⟩) hw hf he hs
        have hminus : context.Reads 2 (.optional (.literal "-"))
            ("-" ++ (w ++ (f ++ (e ++ s)))) _ := .optional (.literal "-" _)
        rw [List.append_assoc, List.append_assoc, List.append_assoc]
        exact ⟨_, .sequence (.cons (hminus.mono (by omega)) hvs), hval _ rfl⟩
  obtain ⟨raw, hread, hval⟩ := hraw
  refine hread.action_value (perform_eq_value.mpr ?_)
  rw [id_eq, Action.denote?, hval, Option.map_some]

/-! ## The value of an integer -/

theorem toValue_of_integer {p : NumberParts} (hf : p.fraction = none) (he : p.exponent = none) :
    (p.toValue : Value Action) = .int (if p.negative then -(Nat.ofDigits 10 p.whole.reverse : Nat)
      else (Nat.ofDigits 10 p.whole.reverse : Nat)) := by
  simp only [NumberParts.toValue, NumberParts.intValue, hf, he, Option.isNone_none, Bool.and_self,
    if_true, Numeral.ofDigits_eq]

end Peg.Json
