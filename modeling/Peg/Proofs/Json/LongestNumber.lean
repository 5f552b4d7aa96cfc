import Peg.Proofs.Json.Totality
import Peg.Proofs.LongestMatch

/-!
# Numbers are longest matches

The parts of a number are apart: a fraction begins with a point, an exponent with a letter,
and neither of these occurs in what is before it. So the node of numbers scans the texts
of numbers. What begins like a fraction or an exponent and is none, as in `1.` and `1e+`,
is left over, and so is what follows a zero in front, as in `01`.

What an integer denotes is stated in positional notation.
-/

namespace Peg.Json

open Context

variable {s t : Text}

/-! ## The texts of a number and of its parts -/

def numbers : Language CodePoint := {t | ∃ p, IsNumber t p}

def wholes : Language CodePoint := {t | ∃ ds, IsWhole t ds}

def fractions : Language CodePoint := {t | ∃ o, IsFraction t o}

def exponents : Language CodePoint := {t | ∃ o, IsExponent t o}

/-- At least one digit. -/
def someDigits : Language CodePoint := {t | AreDigits t ∧ t ≠ []}

def exponentSigns : Language CodePoint := {t | ∃ negative, IsExponentSign t negative}

def letters : Language CodePoint := oneOfTexts [CodePoint.ofChar 'e', CodePoint.ofChar 'E']

theorem exponentSigns_eq :
    exponentSigns = 1 + oneOfTexts [CodePoint.ofChar '+', CodePoint.ofChar '-'] := by
  ext t
  constructor
  · rintro ⟨_, h⟩
    cases h with
    | absent => exact .inl Language.nil_mem_one
    | plus => exact .inr ⟨CodePoint.ofChar '+', by simp, rfl⟩
    | minus => exact .inr ⟨CodePoint.ofChar '-', by simp, rfl⟩
  · rintro (h | ⟨c, hc, rfl⟩)
    · obtain rfl := (Language.mem_one t).mp h
      exact ⟨false, .absent⟩
    · rcases (by simpa using hc : c = CodePoint.ofChar '+' ∨ c = CodePoint.ofChar '-')
        with rfl | rfl
      · exact ⟨_, .plus⟩
      · exact ⟨_, .minus⟩

theorem fractions_eq : fractions = 1 + {Text.ofString "."} * someDigits := by
  ext t
  constructor
  · rintro ⟨_, h⟩
    cases h with
    | absent => exact .inl Language.nil_mem_one
    | digits ht hne => exact .inr (Language.append_mem_mul rfl ⟨ht, hne⟩)
  · rintro (h | h)
    · obtain rfl := (Language.mem_one t).mp h
      exact ⟨none, .absent⟩
    · obtain ⟨_, rfl, u, ⟨hu, hne⟩, rfl⟩ := Language.mem_mul.mp h
      exact ⟨_, .digits hu hne⟩

theorem exponents_eq : exponents = 1 + letters * (exponentSigns * someDigits) := by
  ext t
  constructor
  · rintro ⟨_, h⟩
    cases h with
    | absent => exact .inl Language.nil_mem_one
    | @digits e sign u negative he hsign hu hne =>
        have hletter : [CodePoint.ofChar e] ∈ letters := by
          refine ⟨_, ?_, rfl⟩
          rcases he with rfl | rfl <;> simp
        exact .inr (Language.append_mem_mul hletter
          (Language.append_mem_mul ⟨negative, hsign⟩ ⟨hu, hne⟩))
  · rintro (h | h)
    · obtain rfl := (Language.mem_one t).mp h
      exact ⟨none, .absent⟩
    · obtain ⟨_, ⟨c, hc, rfl⟩, _, hrest, rfl⟩ := Language.mem_mul.mp h
      obtain ⟨sign, ⟨negative, hsign⟩, u, ⟨hu, hne⟩, rfl⟩ := Language.mem_mul.mp hrest
      have he : ∃ e : Char, (e = 'e' ∨ e = 'E') ∧ CodePoint.ofChar e = c := by
        simpa [eq_comm] using hc
      obtain ⟨e, he, rfl⟩ := he
      exact ⟨some (negative, digitValues u), .digits he hsign hu hne⟩

theorem numbers_eq :
    numbers = (1 + {Text.ofString "-"}) * (wholes * (fractions * exponents)) := by
  ext t
  constructor
  · rintro ⟨_, h⟩
    cases h with
    | @positive w f e whole fraction exponent hw hf he =>
        exact Language.append_mem_mul (a := []) (.inl Language.nil_mem_one)
          (Language.append_mem_mul ⟨whole, hw⟩ (Language.append_mem_mul ⟨_, hf⟩ ⟨_, he⟩))
    | @negative w f e whole fraction exponent hw hf he =>
        exact Language.append_mem_mul (.inr rfl)
          (Language.append_mem_mul ⟨whole, hw⟩ (Language.append_mem_mul ⟨_, hf⟩ ⟨_, he⟩))
  · intro h
    obtain ⟨sign, hsign, _, hparts, rfl⟩ := Language.mem_mul.mp h
    obtain ⟨w, ⟨_, hw⟩, _, htail, rfl⟩ := Language.mem_mul.mp hparts
    obtain ⟨f, ⟨_, hf⟩, e, ⟨_, he⟩, rfl⟩ := Language.mem_mul.mp htail
    rcases hsign with hsign | rfl
    · rw [(Language.mem_one sign).mp hsign, List.nil_append]
      exact ⟨_, .positive hw hf he⟩
    · exact ⟨_, .negative hw hf he⟩

/-! ## The parts are apart -/

theorem IsWhole.areDigits {ds : List Nat} (h : IsWhole t ds) : AreDigits t := by
  cases h with
  | zero =>
      intro c hc
      rw [List.mem_singleton.mp hc]
      decide
  | positive hlow hhigh ht =>
      intro c hc
      rcases List.mem_cons.mp hc with rfl | hc
      · exact CodePoint.isDigit_iff.mpr ⟨by omega, hhigh⟩
      · exact ht c hc

theorem first_someDigits : ∀ u ∈ someDigits, ∀ c, u.head? = some c → c.isDigit = true :=
  fun _ ⟨hu, _⟩ c hc => hu c (List.mem_of_mem_head? hc)

theorem first_signed :
    ∀ u ∈ exponentSigns * someDigits, ∀ c, u.head? = some c →
      c.isDigit = true ∨ c = CodePoint.ofChar '+' ∨ c = CodePoint.ofChar '-' := by
  intro u hu c hc
  obtain ⟨_, ⟨_, hsign⟩, v, hv, rfl⟩ := Language.mem_mul.mp hu
  cases hsign with
  | absent => exact .inl (first_someDigits v hv c hc)
  | plus => exact .inr (.inl (Option.some.inj hc).symm)
  | minus => exact .inr (.inr (Option.some.inj hc).symm)

theorem first_exponents :
    ∀ u ∈ exponents, ∀ c, u.head? = some c →
      c = CodePoint.ofChar 'e' ∨ c = CodePoint.ofChar 'E' := by
  rintro u ⟨_, hu⟩ c hc
  cases hu with
  | absent => cases hc
  | digits he =>
      obtain rfl := Option.some.inj hc
      exact he.imp (congrArg _) (congrArg _)

theorem first_tail :
    ∀ u ∈ fractions * exponents, ∀ c, u.head? = some c →
      c = CodePoint.ofChar '.' ∨ c = CodePoint.ofChar 'e' ∨ c = CodePoint.ofChar 'E' := by
  intro u hu c hc
  obtain ⟨_, ⟨_, hf⟩, e, he, rfl⟩ := Language.mem_mul.mp hu
  cases hf with
  | absent => exact .inr (first_exponents e he c hc)
  | digits => exact .inl (Option.some.inj hc).symm

theorem first_parts :
    ∀ u ∈ wholes * (fractions * exponents), ∀ c, u.head? = some c → c.isDigit = true := by
  intro u hu c hc
  obtain ⟨w, ⟨_, hw⟩, _, -, rfl⟩ := Language.mem_mul.mp hu
  have hdigits := hw.areDigits
  cases hw with
  | zero => exact hdigits c (List.mem_of_mem_head? hc)
  | positive => exact hdigits c (List.mem_of_mem_head? hc)

theorem apart_point : Apart {Text.ofString "."} someDigits := by
  refine .of_disjoint (p := (· = CodePoint.ofChar '.')) ?_ first_someDigits ?_
  · rintro _ rfl c hc
    exact List.mem_singleton.mp hc
  · rintro _ rfl
    decide

theorem apart_exponentSigns : Apart exponentSigns someDigits := by
  refine .of_disjoint (p := fun c => c = CodePoint.ofChar '+' ∨ c = CodePoint.ofChar '-') ?_
    first_someDigits ?_
  · rintro t ⟨_, ht⟩ c hc
    cases ht with
    | absent => cases hc
    | plus => exact .inl (List.mem_singleton.mp hc)
    | minus => exact .inr (List.mem_singleton.mp hc)
  · rintro _ (rfl | rfl) <;> decide

theorem apart_letters : Apart letters (exponentSigns * someDigits) := by
  refine .of_disjoint (p := fun c => c = CodePoint.ofChar 'e' ∨ c = CodePoint.ofChar 'E') ?_
    first_signed ?_
  · rintro _ ⟨d, hd, rfl⟩ c hc
    rw [List.mem_singleton.mp hc]
    simpa using hd
  · rintro _ (rfl | rfl) <;> decide

theorem apart_fractions : Apart fractions exponents := by
  refine .of_disjoint (p := fun c => c.isDigit = true ∨ c = CodePoint.ofChar '.') ?_
    first_exponents ?_
  · rintro t ⟨_, ht⟩ c hc
    cases ht with
    | absent => cases hc
    | digits ht =>
        rcases List.mem_cons.mp hc with rfl | hc
        · exact .inr rfl
        · exact .inl (ht c hc)
  · rintro c hc (rfl | rfl) <;> revert hc <;> decide

theorem apart_wholes : Apart wholes (fractions * exponents) := by
  refine .of_disjoint (p := fun c => c.isDigit = true) ?_ first_tail ?_
  · rintro t ⟨_, ht⟩
    exact ht.areDigits
  · rintro c hc (rfl | rfl | rfl) <;> revert hc <;> decide

theorem apart_minus : Apart (1 + {Text.ofString "-"}) (wholes * (fractions * exponents)) := by
  refine .of_disjoint (p := (· = CodePoint.ofChar '-')) ?_ first_parts ?_
  · rintro t (ht | rfl) c hc
    · rw [(Language.mem_one t).mp ht] at hc
      cases hc
    · exact List.mem_singleton.mp hc
  · rintro _ rfl
    decide

/-! ## Scanning -/

theorem scans_someDigits : context.Scans 5 (digit id).oneOrMore someDigits := by
  intro s
  obtain ⟨t, rest, rfl, ht, hrest⟩ := exists_run CodePoint.isDigit s
  by_cases hne : t = []
  · subst hne
    have hmiss : context.Reads 4 (digit id).oneOrMore rest .mismatch :=
      .sequence_mismatch (.here (reads_digit_mismatch hrest))
    refine ⟨_, hmiss.mono (by omega), .none fun u ⟨hu, hne⟩ hbegins => hne ?_⟩
    exact List.length_eq_zero_iff.mp (Nat.le_zero.mp (length_le_of_run hu hrest hbegins))
  · obtain ⟨v, hv, -⟩ := reads_someDigits ht hne hrest
    exact ⟨_, hv, .longest rfl ⟨⟨ht, hne⟩, List.prefix_append t rest,
      fun u hu => length_le_of_run hu.1 hrest⟩⟩

theorem scans_whole : context.Scans 6 wholeNode wholes := by
  intro s
  -- a zero in front is an integer part by itself, whatever digits follow
  by_cases hzero : s.head? = some (CodePoint.ofChar '0')
  · obtain ⟨rest, rfl⟩ := List.head?_eq_some_iff.mp hzero
    have hread : context.Reads 1 (.literal "0") ("0" ++ rest) _ := .literal "0" rest
    refine ⟨_, hread.first.mono (by omega), .longest rfl ⟨⟨_, .zero⟩, ?_, ?_⟩⟩
    · exact List.prefix_append (Text.ofString "0") rest
    · rintro u ⟨_, hu⟩ hbegins
      cases hu with
      | zero => exact Nat.le_refl _
      | positive hlow =>
          rw [(List.cons_prefix_cons.mp hbegins).1] at hlow
          exact absurd hlow (by decide)
  · by_cases hpositive : ∃ c, s.head? = some c ∧ 0x31 ≤ c.val ∧ c.val ≤ 0x39
    · obtain ⟨c, hhead, hlow, hhigh⟩ := hpositive
      obtain ⟨s', rfl⟩ := List.head?_eq_some_iff.mp hhead
      obtain ⟨t, rest, rfl, ht, hrest⟩ := exists_run CodePoint.isDigit s'
      have hwhole : IsWhole (c :: t) (digitValues (c :: t)) := .positive hlow hhigh ht
      obtain ⟨v, hv, -⟩ := reads_whole hwhole hrest
      refine ⟨_, hv, .longest rfl ⟨⟨_, hwhole⟩, List.prefix_append (c :: t) rest, ?_⟩⟩
      rintro u ⟨_, hu⟩ hbegins
      exact length_le_of_run (t := c :: t) hu.areDigits hrest hbegins
    · have hmiss : wholeNode.refuses s.head? = true := by
        cases hs : s.head? with
        | none => rfl
        | some c =>
            have hne : some c ≠ some (CodePoint.ofChar '0') := fun h => hzero (hs.trans h)
            have hout : ¬ (0x31 ≤ c.val ∧ c.val ≤ 0x39) := fun h => hpositive ⟨c, hs, h⟩
            have hrange : (nonzeroDigit id : Node Action).refuses (some c) = true :=
              decide_eq_true fun h => hout ⟨Int.ofNat_le.mp h.1, Int.ofNat_le.mp h.2⟩
            have hliteral : (.literal "0" : Node Action).refuses (some c) = true :=
              decide_eq_true hne
            simp [wholeNode, Node.refuses, Node.refusesEach, Node.refusesSome, hrange, hliteral]
      refine ⟨_, (Reads.of_refuses hmiss).mono (by decide), .none ?_⟩
      rintro u ⟨_, hu⟩ ⟨rest, rfl⟩
      cases hu with
      | zero => exact hzero rfl
      | positive hlow hhigh => exact hpositive ⟨_, rfl, hlow, hhigh⟩

theorem scans_fraction : context.Scans 7 fractionNode fractions := by
  rw [fractions_eq]
  have hpoint : context.Scans 5 (.literal ".") {Text.ofString "."} :=
    (Scans.literal (Text.ofString ".")).mono (by omega)
  exact (Scans.sequence (hpoint.cons (.one scans_someDigits) apart_point)).optional (by omega)

theorem scans_exponent : context.Scans 7 exponentNode exponents := by
  rw [exponents_eq]
  have hletters : context.Scans 5 (.oneOf [CodePoint.ofChar 'e', CodePoint.ofChar 'E']) letters :=
    (Scans.oneOf _).mono (by omega)
  have hsigns : context.Scans 5
      (.optional (.oneOf [CodePoint.ofChar '+', CodePoint.ofChar '-'])) exponentSigns := by
    rw [exponentSigns_eq]
    exact ((Scans.oneOf _).optional (by omega)).mono (by omega)
  have hsigned := hsigns.cons (.one scans_someDigits) apart_exponentSigns
  exact (Scans.sequence (hletters.cons hsigned apart_letters)).optional (by omega)

theorem scans_number : context.Scans 9 (numberValue id) numbers := by
  have hminus : context.Scans 7 (.optional (.literal "-")) (1 + {Text.ofString "-"}) :=
    ((Scans.literal (Text.ofString "-")).optional (by omega)).mono (by omega)
  have htail := scans_fraction.cons (.one scans_exponent) apart_fractions
  have hparts := (scans_whole.mono (by omega)).cons htail apart_wholes
  have hnumber := Scans.sequence (hminus.cons hparts apart_minus)
  rw [← number_eq, ← numbers_eq] at hnumber
  refine hnumber.action fun s v rest hmatch => ?_
  obtain ⟨w, hw⟩ := suits_number s v rest hmatch
  exact ⟨w, perform_eq_value.mpr hw⟩

/-! ## The value of a number -/

/-- A number has one value, however its text is taken apart. -/
theorem IsNumber.toValue_unique {p q : NumberParts} (hp : IsNumber t p) (hq : IsNumber t q) :
    (p.toValue : Value Action) = q.toValue := by
  have hends : EndsNumber [] := ⟨nofun, nofun, nofun⟩
  have heq := (reads_number hp hends).unique (reads_number hq hends)
  injection heq

/-! ## Attempts -/

/-- With nine levels or more the node of numbers matches where a number is in front, takes the
longest one and fails where there is none. A number without fraction and exponent is the
integer that it denotes in decimal, however many digits it has. -/
theorem number_longest_match {limit pos : Nat} (hlimit : 9 ≤ limit) (text : Text)
    (hpos : pos ≤ text.length) :
    ((∃ v n, attempt context limit (numberValue id) text pos = .ok (.matched v n)) ↔
      ∃ t p, IsNumber t p ∧ t <+: text.drop pos) ∧
    (∀ v n, attempt context limit (numberValue id) text pos = .ok (.matched v n) →
      ∃ t, IsLongest numbers (text.drop pos) t ∧ n = t.length ∧
        ∀ p, IsNumber t p → p.fraction = none → p.exponent = none →
          v = .int (if p.negative then -(Nat.ofDigits 10 p.whole.reverse : Nat)
            else (Nat.ofDigits 10 p.whole.reverse : Nat))) ∧
    ((¬ ∃ t p, IsNumber t p ∧ t <+: text.drop pos) →
      ∃ e, attempt context limit (numberValue id) text pos = .ok (.failed e)) := by
  rcases scans_number.attempt (isRegular_rule .numberValue) hpos hlimit with
    ⟨v, t, rest, hs, ht, hmatch, hanswer⟩ | ⟨hnone, e, hanswer⟩
  · obtain ⟨p, hp⟩ := ht.mem
    have hbegins : ∃ t p, IsNumber t p ∧ t <+: text.drop pos := ⟨t, p, hp, ht.begins⟩
    refine ⟨⟨fun _ => hbegins, fun _ => ⟨v, _, hanswer⟩⟩, ?_, fun h => absurd hbegins h⟩
    intro w n hw
    cases hanswer.symm.trans hw
    refine ⟨t, ht, rfl, fun q hq hfraction hexponent => ?_⟩
    obtain ⟨u, r, hu, hr, hv⟩ := matches_number hmatch
    obtain rfl := List.append_cancel_right (hs.symm.trans hu)
    rw [hv, hr.toValue_unique hq, toValue_of_integer hfraction hexponent]
  · refine ⟨⟨?_, ?_⟩, ?_, fun _ => ⟨e, hanswer⟩⟩
    · rintro ⟨v, n, hmatched⟩
      cases hanswer.symm.trans hmatched
    · rintro ⟨t, p, hp, hbegins⟩
      exact absurd hbegins (hnone t ⟨p, hp⟩)
    · intro v n hmatched
      cases hanswer.symm.trans hmatched

/-- Neither a point nor an exponent without digits belongs to the number before it. -/
theorem number_longest_match_incomplete :
    attempt context 9 (numberValue id) "[-120.e5" (1 : Nat) = .ok (.matched (.int (-120)) 4) ∧
      IsLongest numbers "-120.e5" "-120" := by
  have hmatched : attempt context 9 (numberValue id) "[-120.e5" (1 : Nat) =
      .ok (.matched (.int (-120)) 4) := rfl
  obtain ⟨t, ht, hlength, -⟩ :=
    (number_longest_match (by decide) "[-120.e5" (by decide)).2.1 _ _ hmatched
  have htake : t = Text.ofString "-120" := by
    rw [List.prefix_iff_eq_take.mp ht.begins, ← Int.ofNat.inj hlength]
    rfl
  rw [htake] at ht
  exact ⟨hmatched, ht⟩

end Peg.Json
