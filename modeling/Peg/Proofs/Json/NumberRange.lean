import Peg.Proofs.Binary64.Arithmetic
import Peg.Proofs.Json.LongestNumber

/-!
# The range of numbers

A number with a fraction or an exponent is a mantissa times a power of ten. The mantissa is
infinite if the integer part is too large for a float, and then it is never brought back: a
power of ten that is zero makes NaN of it. That takes an exponent of at most -324, and one
that fits into a float. Any other negative exponent divides, so that the number can only
become smaller.

An exponent that does not fit into a float counts as an infinite power of ten, whatever its
sign. So a number with such a negative exponent is infinite, unless its digits are all zero.
-/

namespace Peg.Json

open Context Binary64

variable {t : Text} {p : NumberParts} {ds : List Nat} {negative : Bool} {m : Magnitude}

namespace NumberParts

/-- The integer part and the fraction, added. -/
def mantissa (p : NumberParts) : Binary64 :=
  .ofNat (Numeral.ofDigits p.whole) + (p.fraction.map fractionValue).getD (.zero false)

/-- The power of ten that the mantissa is multiplied by. -/
def scale (p : NumberParts) : Binary64 :=
  (p.exponent.map fun (negative, ds) => factor negative ds).getD (.ofNat 1)

theorem floatValue_eq (p : NumberParts) : p.floatValue =
    if p.mantissa.isZero then .zero p.negative
    else (if p.negative then -p.mantissa else p.mantissa) * p.scale := rfl

/-- The parts are made of decimal digits. -/
structure IsDecimal (p : NumberParts) : Prop where
  whole : ∀ d ∈ p.whole, d < 10
  fraction : ∀ ds, p.fraction = some ds → ∀ d ∈ ds, d < 10

end NumberParts

/-! ## The mantissa -/

theorem lt_ten_of_mem_digitValues (ht : AreDigits t) : ∀ d ∈ digitValues t, d < 10 := by
  intro d hd
  obtain ⟨c, hc, rfl⟩ := List.mem_map.mp hd
  have hbounds := CodePoint.isDigit_iff.mp (ht c hc)
  rw [CodePoint.digitValue]
  omega

theorem IsWhole.lt_ten (h : IsWhole t ds) : ∀ d ∈ ds, d < 10 := by
  have hdigits := h.areDigits
  cases h with
  | zero => simp
  | positive => exact lt_ten_of_mem_digitValues hdigits

theorem IsFraction.lt_ten {o : Option (List Nat)} (h : IsFraction t o) :
    ∀ ds, o = some ds → ∀ d ∈ ds, d < 10 := by
  rintro ds rfl
  cases h with
  | digits ht => exact lt_ten_of_mem_digitValues ht

theorem IsNumber.isDecimal (h : IsNumber t p) : p.IsDecimal := by
  cases h with
  | positive hw hf => exact ⟨hw.lt_ten, hf.lt_ten⟩
  | negative hw hf => exact ⟨hw.lt_ten, hf.lt_ten⟩

/-- Every step adds a digit to a number that is at most one and divides by ten. -/
theorem fractionValue_isWithin (h : ∀ d ∈ ds, d < 10) :
    IsWithin false (1 * unitsInOne) (NumberParts.fractionValue ds) := by
  induction ds with
  | nil => exact ⟨.zero, rfl, Nat.zero_le _⟩
  | cons d ds ih =>
      have hrest := ih fun e he => h e (List.mem_cons_of_mem d he)
      have hd : d ≤ 9 := Nat.le_of_lt_succ (h d List.mem_cons_self)
      have hsum := hrest.add (ofNat_isWithin hd (by decide)) (by decide)
      exact IsWithin.div (j := 1) (k := 10) hsum (by decide) (by decide) (by decide)

theorem fraction_isWithin (hp : p.IsDecimal) :
    IsWithin false unitsInOne ((p.fraction.map NumberParts.fractionValue).getD (.zero false)) := by
  cases hf : p.fraction with
  | none => exact ⟨.zero, rfl, Nat.zero_le _⟩
  | some ds =>
      have hwithin := fractionValue_isWithin (hp.fraction ds hf)
      rwa [Nat.one_mul] at hwithin

theorem mantissa_eq_infinite (hp : p.IsDecimal) (h : overflow ≤ Numeral.ofDigits p.whole) :
    p.mantissa = .infinite false := by
  obtain ⟨f, hf, -⟩ := fraction_isWithin hp
  rw [NumberParts.mantissa, ofNat_eq_infinite h, hf]
  rfl

theorem mantissa_eq_finite (hp : p.IsDecimal) (h : Numeral.ofDigits p.whole < overflow) :
    ∃ m, p.mantissa = .finite false m := by
  obtain ⟨f, hf, hunits⟩ := fraction_isWithin hp
  obtain ⟨w, hw⟩ := ofNat_eq_finite h
  have hlt : w.units + f.units < overflow * unitsInOne * 1 := by
    rw [Nat.mul_one]
    exact w.units_add_lt_overflow hunits
  obtain ⟨m, hm, -⟩ := ofUnits_eq_finite false Nat.one_pos hlt
  exact ⟨m, by rw [NumberParts.mantissa, hw, hf, finite_add_finite, hm]⟩

/-! ## The power of ten -/

theorem factor_eq (negative : Bool) (ds : List Nat) : NumberParts.factor negative ds =
    if Numeral.ofDigits ds < overflow then
      tenPower (if negative then -Numeral.ofDigits ds else Numeral.ofDigits ds)
    else .infinite false := by
  have habs : (if negative then -(Numeral.ofDigits ds : Int)
      else Numeral.ofDigits ds).natAbs = Numeral.ofDigits ds := by
    cases negative <;> simp
  simp only [NumberParts.factor, isSome_ofInt?_iff, habs]

theorem factor_of_lt (h : Numeral.ofDigits ds < overflow) : NumberParts.factor negative ds =
    tenPower (if negative then -Numeral.ofDigits ds else Numeral.ofDigits ds) := by
  rw [factor_eq, if_pos h]

theorem factor_of_overflow (h : overflow ≤ Numeral.ofDigits ds) :
    NumberParts.factor negative ds = .infinite false := by
  rw [factor_eq, if_neg (Nat.not_lt.mpr h)]

theorem factor_ne_nan : NumberParts.factor negative ds ≠ .nan := by
  rcases Nat.lt_or_ge (Numeral.ofDigits ds) overflow with h | h
  · rw [factor_of_lt h]
    exact tenPower_ne_nan _
  · rw [factor_of_overflow h]
    exact nofun

theorem factor_isZero_iff : (NumberParts.factor negative ds).isZero = true ↔
    negative = true ∧ 324 ≤ Numeral.ofDigits ds ∧ Numeral.ofDigits ds < overflow := by
  rcases Nat.lt_or_ge (Numeral.ofDigits ds) overflow with h | h
  · rw [factor_of_lt h, tenPower_isZero_iff]
    cases negative with
    | false => exact iff_of_false (by simp; omega) nofun
    | true =>
        simp only [if_true, true_and, h, and_true]
        omega
  · rw [factor_of_overflow h]
    exact iff_of_false nofun fun hlt => absurd hlt.2.2 (Nat.not_lt.mpr h)

theorem factor_negative_isWithin (h : Numeral.ofDigits ds < overflow) :
    IsWithin false unitsInOne (NumberParts.factor true ds) := by
  rw [factor_of_lt h]
  refine tenPower_isWithin ?_
  rw [if_pos rfl]
  omega

/-- The power of ten of a negative exponent is infinite just where the exponent does not fit
into a float. -/
theorem factor_negative_eq_infinite_iff :
    NumberParts.factor true ds = .infinite false ↔ overflow ≤ Numeral.ofDigits ds := by
  refine ⟨fun hinfinite => ?_, factor_of_overflow⟩
  by_contra hlt
  obtain ⟨m, hm, -⟩ := factor_negative_isWithin (Nat.lt_of_not_le hlt)
  cases hinfinite.symm.trans hm

theorem factor_zero : NumberParts.factor false [0] = ofNat 1 := by
  have hlt : Numeral.ofDigits [0] < overflow := lt_overflow (Nat.zero_le _)
  rw [factor_of_lt hlt]
  rcases tenPower_of_nonpos (Int.le_refl 0) with ⟨hlow, -⟩ | ⟨k, hk, hpower⟩
  · exact absurd hlow (by decide)
  · obtain rfl : k = 0 := by omega
    exact hpower

theorem scale_of_exponent (h : p.exponent = some (negative, ds)) :
    p.scale = NumberParts.factor negative ds := by
  rw [NumberParts.scale, h, Option.map_some, Option.getD_some]

theorem scale_of_none (h : p.exponent = none) : p.scale = .ofNat 1 := by
  rw [NumberParts.scale, h, Option.map_none, Option.getD_none]

theorem scale_ne_nan (p : NumberParts) : p.scale ≠ .nan := by
  cases he : p.exponent with
  | none =>
      rw [scale_of_none he]
      exact ofNat_ne_nan
  | some e =>
      rw [scale_of_exponent he]
      exact factor_ne_nan

theorem scale_isZero_iff (p : NumberParts) : p.scale.isZero = true ↔
    ∃ ds, p.exponent = some (true, ds) ∧ 324 ≤ Numeral.ofDigits ds ∧
      Numeral.ofDigits ds < overflow := by
  cases he : p.exponent with
  | none =>
      rw [scale_of_none he, ofNat_isZero_iff]
      exact iff_of_false Nat.one_ne_zero (by simp)
  | some e =>
      obtain ⟨negative, ds⟩ := e
      rw [scale_of_exponent he, factor_isZero_iff]
      constructor
      · rintro ⟨rfl, h⟩
        exact ⟨ds, rfl, h⟩
      · rintro ⟨_, heq, h⟩
        cases heq
        exact ⟨rfl, h⟩

/-! ## The value -/

theorem floatValue_of_infinite (h : p.mantissa = .infinite false) :
    p.floatValue = .infinite p.negative * p.scale := by
  rw [NumberParts.floatValue_eq, h]
  cases p.negative <;> rfl

theorem floatValue_of_finite (h : p.mantissa = .finite false m) : p.floatValue =
    if m.isZero then .zero p.negative else .finite p.negative m * p.scale := by
  rw [NumberParts.floatValue_eq, h]
  cases p.negative <;> rfl

/-- A number is NaN if its integer part is too large for a float while its exponent makes the
power of ten zero, and in no other case. -/
theorem floatValue_eq_nan_iff (hp : p.IsDecimal) : p.floatValue = .nan ↔
    overflow ≤ Numeral.ofDigits p.whole ∧ ∃ ds, p.exponent = some (true, ds) ∧
      324 ≤ Numeral.ofDigits ds ∧ Numeral.ofDigits ds < overflow := by
  rw [← scale_isZero_iff]
  rcases Nat.lt_or_ge (Numeral.ofDigits p.whole) overflow with h | h
  · obtain ⟨m, hm⟩ := mantissa_eq_finite hp h
    rw [floatValue_of_finite hm]
    refine iff_of_false ?_ fun hle => absurd hle.1 (Nat.not_le.mpr h)
    by_cases hzero : m.isZero = true
    · rw [if_pos hzero]
      exact nofun
    · rw [if_neg hzero, mul_eq_nan_iff (x := .finite p.negative m) nofun
        (Bool.eq_false_iff.mpr hzero) (scale_ne_nan p)]
      rintro ⟨⟨_, hinfinite⟩, -⟩
      cases hinfinite
  · rw [floatValue_of_infinite (mantissa_eq_infinite hp h),
      mul_eq_nan_iff (x := .infinite p.negative) nofun rfl (scale_ne_nan p)]
    exact ⟨fun hz => ⟨h, hz.2⟩, fun hz => ⟨⟨_, rfl⟩, hz.2⟩⟩

theorem floatValue_with_exponent (h : p.mantissa = .finite false m) (negative : Bool)
    (ds : List Nat) :
    ({ p with exponent := some (negative, ds) } : NumberParts).floatValue =
      if m.isZero then .zero p.negative
      else .finite p.negative m * NumberParts.factor negative ds := by
  rw [floatValue_of_finite (p := { p with exponent := some (negative, ds) }) h,
    scale_of_exponent rfl]

/-- The exponent zero keeps the mantissa. A negative exponent makes no number larger, as long
as it fits into a float. -/
theorem floatValue_negative_exponent (hp : p.IsDecimal)
    (hwhole : Numeral.ofDigits p.whole < overflow) (ds : List Nat) :
    ∃ m₀, ({ p with exponent := some (false, [0]) } : NumberParts).floatValue =
        .finite p.negative m₀ ∧
      (Numeral.ofDigits ds < overflow →
        ∃ m, ({ p with exponent := some (true, ds) } : NumberParts).floatValue =
          .finite p.negative m ∧ m.units ≤ m₀.units) ∧
      (overflow ≤ Numeral.ofDigits ds →
        ({ p with exponent := some (true, ds) } : NumberParts).floatValue =
          if m₀.isZero then .zero p.negative else .infinite p.negative) := by
  obtain ⟨m, hm⟩ := mantissa_eq_finite hp hwhole
  rw [floatValue_with_exponent hm, floatValue_with_exponent hm, factor_zero]
  by_cases hzero : m.isZero = true
  · simp only [if_pos hzero]
    exact ⟨.zero, rfl, fun _ => ⟨.zero, rfl, Nat.le_refl _⟩, fun _ => rfl⟩
  · simp only [if_neg hzero]
    obtain ⟨one, hone, honeUnits⟩ := ofNat_exact (k := 1) (by decide)
    rw [Nat.one_mul] at honeUnits
    obtain ⟨m₀, hm₀, hunits⟩ := mul_one_exact (s := p.negative) (a := m) honeUnits
    refine ⟨m₀, by rw [hone, hm₀], fun hlt => ?_, fun hle => ?_⟩
    · obtain ⟨m', hm', hle⟩ := mul_isWithin (s := p.negative) (a := m)
        (factor_negative_isWithin hlt)
      rw [Bool.bne_false] at hm'
      exact ⟨m', hm', hunits ▸ hle⟩
    · have hzero₀ : ¬ m₀.isZero = true := by
        rwa [Magnitude.isZero_iff, hunits, ← Magnitude.isZero_iff]
      rw [factor_of_overflow hle, mul_infinite (Bool.eq_false_iff.mpr hzero), Bool.bne_false,
        if_neg hzero₀]

/-! ## Attempts -/

theorem attempt_number {limit : Nat} (hlimit : 9 ≤ limit) (ht : IsNumber t p) :
    attempt context limit (numberValue id) t 0 = .ok (.matched p.toValue t.length) := by
  have hends : EndsNumber [] := ⟨nofun, nofun, nofun⟩
  have hattempt := (reads_number ht hends).attempt (u := []) (isRegular_rule .numberValue) hlimit
  rwa [List.nil_append, List.append_nil] at hattempt

theorem toValue_of_exponent {e : Bool × List Nat} (he : p.exponent = some e) :
    (p.toValue : Value Action) = .float p.floatValue := by
  rw [NumberParts.toValue, he, Option.isNone_some, Bool.and_false]
  rfl

theorem IsNumber.with_exponent {e : Text} {o : Option (Bool × List Nat)} (ht : IsNumber t p)
    (hnone : p.exponent = none) (he : IsExponent e o) :
    IsNumber (t ++ e) { p with exponent := o } := by
  cases ht with
  | positive hw hf habsent =>
      obtain rfl := hnone
      cases habsent
      rw [List.append_nil, List.append_assoc]
      exact .positive hw hf he
  | negative hw hf habsent =>
      obtain rfl := hnone
      cases habsent
      rw [List.append_nil, List.append_assoc, List.append_assoc]
      exact .negative hw hf he

/-! ### Texts of numbers -/

theorem areDigits_of_all (ht : t.all CodePoint.isDigit = true) : AreDigits t :=
  List.all_eq_true.mp ht

theorem IsWhole.isNumber (hw : IsWhole t ds) : IsNumber t ⟨false, ds, none, none⟩ := by
  have hnumber := IsNumber.positive hw .absent .absent
  rwa [List.append_nil, List.append_nil] at hnumber

theorem isExponent_minus (ht : AreDigits t) (hne : t ≠ []) :
    IsExponent ("e-" ++ t) (some (true, digitValues t)) := .digits (.inl rfl) .minus ht hne

theorem isWhole_one : IsWhole "1" [1] :=
  .positive (c := CodePoint.ofChar '1') (t := []) (by decide) (by decide) nofun

/-- The digits of a power of ten. -/
def powerText (k : Nat) : Text := CodePoint.ofChar '1' :: List.replicate k (CodePoint.ofChar '0')

theorem isWhole_powerText (k : Nat) : IsWhole (powerText k) (digitValues (powerText k)) := by
  refine .positive (by decide) (by decide) fun c hc => ?_
  rw [List.eq_of_mem_replicate hc]
  decide

/-! ### No number and NaN -/

/-- A number that is read is an integer or a float. The float is NaN just where the integer
part is too large for a float and the power of ten is too small for one. -/
theorem number_nan_iff {limit pos : Nat} (text : Text) (hpos : pos ≤ text.length)
    {v : Value Action} {n : Int}
    (h : attempt context limit (numberValue id) text pos = .ok (.matched v n)) :
    (∃ p, IsNumber (text.slice pos (pos + n)) p) ∧
      ∀ p, IsNumber (text.slice pos (pos + n)) p →
        (∃ i, v = .int i) ∨ ∃ x, v = .float x ∧
          (x = .nan ↔ overflow ≤ Numeral.ofDigits p.whole ∧
            ∃ ds, p.exponent = some (true, ds) ∧ 324 ≤ Numeral.ofDigits ds ∧
              Numeral.ofDigits ds < overflow) := by
  obtain ⟨t, rest, hslice, -, hmatch⟩ := matches_of_attempt (isRegular_rule .numberValue) hpos h
  obtain ⟨u, q, hu, hq, rfl⟩ := matches_number hmatch
  obtain rfl := List.append_cancel_right hu
  rw [hslice]
  refine ⟨⟨q, hq⟩, fun p hp => ?_⟩
  rw [hq.toValue_unique hp, NumberParts.toValue]
  by_cases hinteger : (p.fraction.isNone && p.exponent.isNone) = true
  · exact .inl ⟨p.intValue, if_pos hinteger⟩
  · exact .inr ⟨p.floatValue, if_neg hinteger, floatValue_eq_nan_iff hp.isDecimal⟩

/-- The mantissa is finite here, so a power of ten that is zero does no harm. -/
theorem number_nan_iff_underflow :
    ∃ x, attempt context 9 (numberValue id) ("1" ++ ("e-" ++ "324")) (0 : Nat) =
        .ok (.matched (.float x) 6) ∧ x ≠ .nan := by
  have hexponent : IsExponent ("e-" ++ "324") (some (true, [3, 2, 4])) :=
    isExponent_minus (areDigits_of_all rfl) (by decide)
  have hnumber := isWhole_one.isNumber.with_exponent rfl hexponent
  have hmatched := attempt_number (Nat.le_refl 9) hnumber
  rw [toValue_of_exponent rfl] at hmatched
  refine ⟨_, hmatched, fun hnan => ?_⟩
  rcases (number_nan_iff _ (Nat.zero_le _) hmatched).2 _ hnumber with ⟨_, hint⟩ | ⟨x, hx, hiff⟩
  · cases hint
  · injection hx with hx
    have hwhole := (hiff.mp (hx.symm.trans hnan)).1
    exact absurd hwhole (Nat.not_le_of_lt (lt_overflow (by decide)))

/-- The integer part is infinite as a float and the power of ten is zero, although the number
is one. -/
theorem number_is_nan :
    attempt context defaultLimit (numberValue id) (powerText 400 ++ ("e-" ++ "400")) 0 =
      .ok (.matched (.float .nan) 406) := by
  have hexponent : IsExponent ("e-" ++ "400") (some (true, [4, 0, 0])) :=
    isExponent_minus (areDigits_of_all rfl) (by decide)
  have hnumber := (isWhole_powerText 400).isNumber.with_exponent rfl hexponent
  have hvalue : (⟨false, digitValues (powerText 400), none, some (true, [4, 0, 0])⟩ :
      NumberParts).floatValue = .nan := by decide +kernel
  have hlength : (powerText 400 ++ ("e-" ++ "400")).length = 406 := by decide +kernel
  have hmatched := attempt_number (by decide : 9 ≤ defaultLimit) hnumber
  rwa [toValue_of_exponent rfl, hvalue, hlength] at hmatched

/-! ### Negative exponents -/

/-- With nine levels or more, a number with at most three hundred digits before the point and a
negative exponent is finite and no larger than with the exponent zero, if the exponent fits
into a float. If it does not, the power of ten is infinite, and so is the number unless it is
zero. -/
theorem number_negative_exponent {limit : Nat} (hlimit : 9 ≤ limit) {body e : Text}
    (hbody : IsNumber body p) (hnone : p.exponent = none) (he : IsExponent e (some (true, ds)))
    (hwhole : p.whole.length ≤ 300) :
    ∃ x m₀, attempt context limit (numberValue id) (body ++ e) 0 =
        .ok (.matched (.float x) (body ++ e).length) ∧
      attempt context limit (numberValue id) (body ++ "e0") 0 =
        .ok (.matched (.float (.finite p.negative m₀)) (body ++ "e0").length) ∧
      (Numeral.ofDigits ds < overflow → ∃ m, x = .finite p.negative m ∧ m.units ≤ m₀.units) ∧
      (overflow ≤ Numeral.ofDigits ds →
        x = if m₀.isZero then .zero p.negative else .infinite p.negative) ∧
      (NumberParts.factor true ds = .infinite false ↔ overflow ≤ Numeral.ofDigits ds) := by
  have hzero : IsExponent "e0" (some (false, [0])) :=
    .digits (.inl rfl) .absent IsWhole.zero.areDigits (by decide)
  have hlt : Numeral.ofDigits p.whole < overflow := by
    calc Numeral.ofDigits p.whole < 10 ^ p.whole.length := Numeral.ofDigits_lt hbody.isDecimal.whole
      _ ≤ 10 ^ 300 := by gcongr; decide
      _ ≤ overflow := by decide +kernel
  obtain ⟨m₀, hm₀, hsmall, hlarge⟩ := floatValue_negative_exponent hbody.isDecimal hlt ds
  have hmatched := attempt_number hlimit (hbody.with_exponent hnone he)
  have hmatched₀ := attempt_number hlimit (hbody.with_exponent hnone hzero)
  rw [toValue_of_exponent rfl] at hmatched hmatched₀
  rw [hm₀] at hmatched₀
  exact ⟨_, m₀, hmatched, hmatched₀, hsmall, hlarge, factor_negative_eq_infinite_iff⟩

theorem number_negative_exponent_divided :
    ∃ m m₀, attempt context 9 (numberValue id) ("1" ++ ("e-" ++ "3")) 0 =
        .ok (.matched (.float (.finite false m)) 4) ∧
      attempt context 9 (numberValue id) ("1" ++ "e0") 0 =
        .ok (.matched (.float (.finite false m₀)) 3) ∧
      m.units ≤ m₀.units := by
  have hexponent : IsExponent ("e-" ++ "3") (some (true, [3])) :=
    isExponent_minus (areDigits_of_all rfl) (by decide)
  obtain ⟨x, m₀, hx, hm₀, hsmall, -⟩ :=
    number_negative_exponent (Nat.le_refl 9) isWhole_one.isNumber rfl hexponent (by decide)
  obtain ⟨m, rfl, hle⟩ := hsmall (lt_overflow (by decide))
  exact ⟨m, m₀, hx, hm₀, hle⟩

/-- An exponent too large for a float makes the power of ten infinite although its sign is a
minus sign. -/
theorem number_negative_exponent_infinite :
    attempt context defaultLimit (numberValue id) ("1" ++ ("e-" ++ powerText 309)) 0 =
      .ok (.matched (.float (.infinite false)) 313) := by
  have hexponent := isExponent_minus (isWhole_powerText 309).areDigits (by decide)
  have hnumber := isWhole_one.isNumber.with_exponent rfl hexponent
  have hvalue : (⟨false, [1], none, some (true, digitValues (powerText 309))⟩ :
      NumberParts).floatValue = .infinite false := by decide +kernel
  have hlength : (Text.ofString "1" ++ ("e-" ++ powerText 309)).length = 313 := by
    decide +kernel
  have hmatched := attempt_number (by decide : 9 ≤ defaultLimit) hnumber
  rwa [toValue_of_exponent rfl, hvalue, hlength] at hmatched

end Peg.Json
