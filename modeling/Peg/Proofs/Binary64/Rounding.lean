import Mathlib.Tactic.Ring
import Peg.Binary64.Rounding

/-!
# Rounding as an order-preserving map

What is rounded to a magnitude keeps its place among the magnitudes: a quotient that is at
most a magnitude is not rounded beyond it, nor one that is at least a magnitude below it. It
suffices here that the bound can be written with a significand of 53 bits, so bounds of any
size can be compared with. A magnitude itself is therefore rounded to itself.

Two thresholds are exact. A quotient is rounded to zero if it is at most half a unit, and
to no magnitude from the number on that is half way between the greatest magnitude and the
next power of two.
-/

namespace Peg

variable {num den k n : Nat}

/-! ## The nearest whole number -/

theorem two_mul_add_one_mul (k den : Nat) : (2 * k + 1) * den = 2 * (k * den) + den := by
  rw [Nat.succ_mul, Nat.mul_assoc]

/-- The nearest whole number is at most `k` where `num / den` is below `k` and a half, and
at `k` and a half if `k` is even. -/
theorem nearestQuotient_le_iff (hden : 0 < den) : nearestQuotient num den ≤ k ↔
    2 * num < (2 * k + 1) * den ∨ k % 2 = 0 ∧ 2 * num = (2 * k + 1) * den := by
  have hnum : num / den * den + num % den = num := by
    rw [Nat.mul_comm]
    exact Nat.div_add_mod num den
  have hlt : num % den < den := Nat.mod_lt num hden
  rw [two_mul_add_one_mul]
  unfold nearestQuotient
  generalize num / den = q at *
  generalize num % den = r at *
  dsimp only
  -- the remainder decides only where the quotient without it is `k`
  rcases Nat.lt_trichotomy q k with h | rfl | h
  · have hmul : (q + 1) * den ≤ k * den := Nat.mul_le_mul_right den h
    rw [Nat.succ_mul] at hmul
    split_ifs <;> omega
  · split_ifs <;> omega
  · have hmul : (k + 1) * den ≤ q * den := Nat.mul_le_mul_right den h
    rw [Nat.succ_mul] at hmul
    split_ifs <;> omega

theorem nearestQuotient_le (hden : 0 < den) (h : num ≤ k * den) : nearestQuotient num den ≤ k := by
  refine (nearestQuotient_le_iff hden).mpr (.inl ?_)
  rw [two_mul_add_one_mul]
  omega

theorem le_nearestQuotient (hden : 0 < den) (h : k * den ≤ num) : k ≤ nearestQuotient num den := by
  cases k with
  | zero => exact Nat.zero_le _
  | succ k =>
      by_contra hlt
      have hle := (nearestQuotient_le_iff hden).mp (Nat.le_of_lt_succ (Nat.lt_of_not_le hlt))
      rw [two_mul_add_one_mul] at hle
      rw [Nat.succ_mul] at h
      omega

namespace Binary64

/-! ## Rounding without a greatest exponent -/

/-- A number of units that can be written with a significand of 53 bits. -/
def IsRepresentable (n : Nat) : Prop := ∃ k j, k ≤ 2 ^ 53 ∧ n = k * 2 ^ j

theorem unitsInOne_eq : unitsInOne = 2 ^ 1074 := by decide +kernel

theorem unitsInOne_pos : 0 < unitsInOne := by
  simp only [unitsInOne, Nat.one_shiftLeft, Nat.two_pow_pos]

theorem isRepresentable_whole (hk : k ≤ 2 ^ 53) : IsRepresentable (k * unitsInOne) :=
  ⟨k, 1074, hk, congrArg (k * ·) unitsInOne_eq⟩

namespace Magnitude

theorem units_eq (m : Magnitude) : m.units = m.significand * 2 ^ m.exponent := Nat.shiftLeft_eq _ _

theorem isRepresentable (m : Magnitude) : IsRepresentable m.units :=
  ⟨m.significand, m.exponent, Nat.le_of_lt m.canonical.1, m.units_eq⟩

theorem units_lt (m : Magnitude) : m.units < 2 ^ (53 + maxExponent) := by
  rw [units_eq, Nat.pow_add]
  exact Nat.mul_lt_mul_of_lt_of_le m.canonical.1
    (Nat.pow_le_pow_right (by decide) m.canonical.2.1) (Nat.two_pow_pos _)

theorem exponentOf_spec (n : Nat) :
    n < 2 ^ (exponentOf n + 53) ∧ (exponentOf n = 0 ∨ 2 ^ (exponentOf n + 52) ≤ n) := by
  unfold exponentOf
  refine ⟨Nat.lt_of_lt_of_le Nat.lt_log2_self (Nat.pow_le_pow_right (by decide) (by omega)), ?_⟩
  by_cases h : n.log2 - 52 = 0
  · exact .inl h
  · have hne : n ≠ 0 := by
      rintro rfl
      exact h rfl
    have hlog : n.log2 - 52 + 52 = n.log2 := by omega
    rw [hlog]
    exact .inr (Nat.log2_self_le hne)

/-- The significand that a quotient is rounded to. It may have one bit too many. -/
def significandOf (num den : Nat) : Nat := nearestQuotient num (den * 2 ^ exponentOf (num / den))

theorem nearest?_eq (num den : Nat) : nearest? num den =
    if significandOf num den = 1 <<< 53 then ofParts? (1 <<< 52) (exponentOf (num / den) + 1)
    else ofParts? (significandOf num den) (exponentOf (num / den)) := by
  rw [significandOf, ← Nat.shiftLeft_eq]
  rfl

theorem significandOf_le (hden : 0 < den) : significandOf num den ≤ 2 ^ 53 := by
  have hlt := (Nat.div_lt_iff_lt_mul hden).mp (exponentOf_spec (num / den)).1
  refine nearestQuotient_le (Nat.mul_pos hden (Nat.two_pow_pos _)) (Nat.le_of_lt ?_)
  calc num < 2 ^ (exponentOf (num / den) + 53) * den := hlt
    _ = 2 ^ 53 * (den * 2 ^ exponentOf (num / den)) := by rw [Nat.pow_add]; ring

/-- The quotient is no smaller than the significand of 53 bits with the exponent that was
chosen, unless that is zero. -/
theorem le_of_exponentOf_ne_zero (hden : 0 < den) (he : exponentOf (num / den) ≠ 0) :
    2 ^ 52 * 2 ^ exponentOf (num / den) * den ≤ num := by
  have hle := (exponentOf_spec (num / den)).2.resolve_left he
  rwa [Nat.le_div_iff_mul_le hden, Nat.pow_add, Nat.mul_comm (2 ^ exponentOf _)] at hle

theorem le_significandOf (hden : 0 < den) (he : exponentOf (num / den) ≠ 0) :
    2 ^ 52 ≤ significandOf num den := by
  refine le_nearestQuotient (Nat.mul_pos hden (Nat.two_pow_pos _)) ?_
  have hle := le_of_exponentOf_ne_zero hden he
  rwa [Nat.mul_comm den, ← Nat.mul_assoc]

/-- The number of units that a quotient is rounded to if there is no greatest exponent. -/
def rounded (num den : Nat) : Nat := significandOf num den * 2 ^ exponentOf (num / den)

/-- What is written with a smaller exponent than the quotient is below the quotient. -/
theorem le_of_lt_exponentOf {j : Nat} (hk : k ≤ 2 ^ 53) (hj : j < exponentOf (num / den)) :
    k * 2 ^ j ≤ 2 ^ 52 * 2 ^ exponentOf (num / den) := by
  calc k * 2 ^ j ≤ 2 ^ 53 * 2 ^ j := Nat.mul_le_mul_right _ hk
    _ = 2 ^ 52 * 2 ^ (j + 1) := by rw [Nat.pow_succ 2 j, Nat.pow_succ 2 52]; ring
    _ ≤ 2 ^ 52 * 2 ^ exponentOf (num / den) :=
        Nat.mul_le_mul_left _ (Nat.pow_le_pow_right (by decide) hj)

theorem rounded_le (hden : 0 < den) (hn : IsRepresentable n) (h : num ≤ n * den) :
    rounded num den ≤ n := by
  obtain ⟨k, j, hk, rfl⟩ := hn
  unfold rounded
  rcases Nat.lt_or_ge j (exponentOf (num / den)) with hj | hj
  · -- the quotient is the least one with this exponent, and equal to the bound
    have hle := le_of_exponentOf_ne_zero hden (Nat.ne_of_gt (Nat.zero_lt_of_lt hj))
    have hbound := le_of_lt_exponentOf hk hj
    have hsig : significandOf num den ≤ 2 ^ 52 := by
      refine nearestQuotient_le (Nat.mul_pos hden (Nat.two_pow_pos _)) ?_
      have hnum : num ≤ 2 ^ 52 * 2 ^ exponentOf (num / den) * den :=
        h.trans (Nat.mul_le_mul_right den hbound)
      rwa [Nat.mul_comm den, ← Nat.mul_assoc]
    calc significandOf num den * 2 ^ exponentOf (num / den)
        ≤ 2 ^ 52 * 2 ^ exponentOf (num / den) := Nat.mul_le_mul_right _ hsig
      _ ≤ k * 2 ^ j := Nat.le_of_mul_le_mul_right (hle.trans h) hden
  · obtain ⟨i, rfl⟩ := Nat.exists_eq_add_of_le hj
    have hsig : significandOf num den ≤ k * 2 ^ i := by
      refine nearestQuotient_le (Nat.mul_pos hden (Nat.two_pow_pos _)) ?_
      refine h.trans (Nat.le_of_eq ?_)
      rw [Nat.pow_add]
      ring
    calc significandOf num den * 2 ^ exponentOf (num / den)
        ≤ k * 2 ^ i * 2 ^ exponentOf (num / den) := Nat.mul_le_mul_right _ hsig
      _ = k * 2 ^ (exponentOf (num / den) + i) := by rw [Nat.pow_add]; ring

theorem le_rounded (hden : 0 < den) (hn : IsRepresentable n) (h : n * den ≤ num) :
    n ≤ rounded num den := by
  obtain ⟨k, j, hk, rfl⟩ := hn
  unfold rounded
  rcases Nat.lt_or_ge j (exponentOf (num / den)) with hj | hj
  · have hsig := le_significandOf hden (Nat.ne_of_gt (Nat.zero_lt_of_lt hj))
    exact (le_of_lt_exponentOf hk hj).trans (Nat.mul_le_mul_right _ hsig)
  · obtain ⟨i, rfl⟩ := Nat.exists_eq_add_of_le hj
    have hsig : k * 2 ^ i ≤ significandOf num den := by
      refine le_nearestQuotient (Nat.mul_pos hden (Nat.two_pow_pos _)) ?_
      refine Nat.le_trans (Nat.le_of_eq ?_) h
      rw [Nat.pow_add]
      ring
    calc k * 2 ^ (exponentOf (num / den) + i)
        = k * 2 ^ i * 2 ^ exponentOf (num / den) := by rw [Nat.pow_add]; ring
      _ ≤ significandOf num den * 2 ^ exponentOf (num / den) := Nat.mul_le_mul_right _ hsig

/-! ## The nearest magnitude -/

/-- The nearest magnitude is what is rounded to, as long as that is not too large. -/
theorem nearest?_cases (num : Nat) (hden : 0 < den) :
    (∃ m, nearest? num den = some m ∧ m.units = rounded num den) ∨
      nearest? num den = none ∧ 2 ^ (53 + maxExponent) ≤ rounded num den := by
  rw [nearest?_eq, rounded]
  have hle : significandOf num den ≤ 2 ^ 53 := significandOf_le hden
  have hge : exponentOf (num / den) ≠ 0 → 2 ^ 52 ≤ significandOf num den := le_significandOf hden
  generalize significandOf num den = s at *
  generalize exponentOf (num / den) = e at *
  have hpow : 2 ^ 53 * 2 ^ e = 2 ^ 52 * 2 ^ (e + 1) := by
    rw [Nat.pow_succ 2 e, Nat.pow_succ 2 52]
    ring
  -- a significand with one bit too many is halved, which keeps the number of units
  by_cases hs : s = 1 <<< 53
  · subst hs
    rw [if_pos rfl]
    by_cases he : e + 1 ≤ maxExponent
    · have hcanonical : Canonical (1 <<< 52) (e + 1) := ⟨by decide, he, .inr (Nat.le_refl _)⟩
      refine .inl ⟨_, dif_pos hcanonical, ?_⟩
      rw [units_eq]
      exact hpow.symm
    · refine .inr ⟨dif_neg fun h => he h.2.1, ?_⟩
      rw [Nat.pow_add]
      exact Nat.mul_le_mul_left _ (Nat.pow_le_pow_right (by decide) (by omega))
  · rw [if_neg hs]
    have hlt : s < 2 ^ 53 := Nat.lt_of_le_of_ne hle hs
    by_cases he : e ≤ maxExponent
    · have hcanonical : Canonical s e := ⟨hlt, he, (Nat.eq_zero_or_pos e).imp id fun h =>
        hge (Nat.ne_of_gt h)⟩
      exact .inl ⟨_, dif_pos hcanonical, units_eq _⟩
    · refine .inr ⟨dif_neg fun h => he h.2.1, ?_⟩
      have hexp : 2 ^ (maxExponent + 1) ≤ 2 ^ e := Nat.pow_le_pow_right (by decide) (by omega)
      calc 2 ^ (53 + maxExponent) = 2 ^ 52 * 2 ^ (maxExponent + 1) := by
            rw [← Nat.pow_add]
            congr 1
        _ ≤ s * 2 ^ e := Nat.mul_le_mul (hge (by omega)) hexp

variable {m : Magnitude}

theorem units_of_nearest? (hden : 0 < den) (h : nearest? num den = some m) :
    m.units = rounded num den := by
  rcases nearest?_cases num hden with ⟨m', hm', hunits⟩ | ⟨hnone, -⟩
  · cases h.symm.trans hm'
    exact hunits
  · cases h.symm.trans hnone

theorem units_le_of_nearest? (hden : 0 < den) (hn : IsRepresentable n) (hle : num ≤ n * den)
    (h : nearest? num den = some m) : m.units ≤ n := by
  rw [units_of_nearest? hden h]
  exact rounded_le hden hn hle

theorem le_units_of_nearest? (hden : 0 < den) (hn : IsRepresentable n) (hle : n * den ≤ num)
    (h : nearest? num den = some m) : n ≤ m.units := by
  rw [units_of_nearest? hden h]
  exact le_rounded hden hn hle

/-- A quotient is rounded to zero if it is at most half a unit. -/
theorem isZero_iff_of_nearest? (hden : 0 < den) (h : nearest? num den = some m) :
    m.isZero = true ↔ 2 * num ≤ den := by
  rw [isZero_iff, units_of_nearest? hden h, rounded]
  by_cases he : exponentOf (num / den) = 0
  · have hzero : significandOf num den ≤ 0 ↔ 2 * num ≤ den := by
      rw [significandOf, he, Nat.pow_zero, Nat.mul_one, nearestQuotient_le_iff hden]
      omega
    rw [he, Nat.pow_zero, Nat.mul_one, ← hzero, Nat.le_zero]
  · have hsig : 0 < significandOf num den :=
      Nat.lt_of_lt_of_le (by decide) (le_significandOf hden he)
    have hrounded : 0 < significandOf num den * 2 ^ exponentOf (num / den) :=
      Nat.mul_pos hsig (Nat.two_pow_pos _)
    have hnum : 1 * den ≤ num := by
      refine Nat.le_trans (Nat.mul_le_mul_right den ?_) (le_of_exponentOf_ne_zero hden he)
      exact Nat.mul_pos (by decide) (Nat.two_pow_pos _)
    omega

end Magnitude

/-! ## Overflow -/

/-- The least number that no magnitude is nearest to: the greatest magnitude and half of the
distance to the next power of two. -/
def overflow : Nat := 2 ^ 1024 - 2 ^ 970

/-- In units it is an odd number of halves of what the last bit of the greatest magnitude
counts for. -/
theorem overflow_units : ∃ j, maxExponent = j + 1 ∧ unitsInOne < 2 ^ j ∧
    overflow * unitsInOne = (2 ^ 54 - 1) * 2 ^ j :=
  ⟨2044, rfl, by decide +kernel, by decide +kernel⟩

theorem whole_lt_overflow (hk : k ≤ 2 ^ 53) : k * unitsInOne < overflow * unitsInOne := by
  obtain ⟨j, -, hone, hoverflow⟩ := overflow_units
  calc k * unitsInOne ≤ 2 ^ 53 * unitsInOne := Nat.mul_le_mul_right _ hk
    _ < 2 ^ 53 * 2 ^ j := Nat.mul_lt_mul_of_pos_left hone (by decide)
    _ ≤ (2 ^ 54 - 1) * 2 ^ j := Nat.mul_le_mul_right _ (by decide)
    _ = overflow * unitsInOne := hoverflow.symm

theorem overflow_units_pos : 0 < overflow * unitsInOne :=
  Nat.zero_lt_of_lt (whole_lt_overflow (Nat.zero_le _))

theorem lt_overflow (hk : k ≤ 2 ^ 53) : k < overflow :=
  Nat.lt_of_mul_lt_mul_right (whole_lt_overflow hk)

namespace Magnitude

variable {m : Magnitude}

/-- Below the exponent `j + 1` everything is below the power of two. -/
theorem rounded_lt_power {j : Nat} (hden : 0 < den) (he : exponentOf (num / den) ≤ j) :
    rounded num den < 2 ^ (54 + j) ∧ num < (2 ^ 54 - 1) * 2 ^ j * den := by
  constructor
  · calc rounded num den ≤ 2 ^ 53 * 2 ^ exponentOf (num / den) :=
          Nat.mul_le_mul_right _ (significandOf_le hden)
      _ = 2 ^ (53 + exponentOf (num / den)) := by rw [← Nat.pow_add]
      _ < 2 ^ (54 + j) := Nat.pow_lt_pow_right (by decide) (by omega)
  · calc num < 2 ^ (exponentOf (num / den) + 53) * den :=
          (Nat.div_lt_iff_lt_mul hden).mp (exponentOf_spec (num / den)).1
      _ ≤ 2 ^ (53 + j) * den :=
          Nat.mul_le_mul_right den (Nat.pow_le_pow_right (by decide) (by omega))
      _ ≤ (2 ^ 54 - 1) * 2 ^ j * den := by
          rw [Nat.pow_add]
          exact Nat.mul_le_mul_right den (Nat.mul_le_mul_right _ (by decide))

/-- Above it everything is at least the power of two. -/
theorem power_le_rounded {j : Nat} (hden : 0 < den) (he : j + 2 ≤ exponentOf (num / den)) :
    2 ^ (54 + j) ≤ rounded num den ∧ (2 ^ 54 - 1) * 2 ^ j * den ≤ num := by
  have hne : exponentOf (num / den) ≠ 0 := by omega
  have hpow : 2 ^ (54 + j) ≤ 2 ^ 52 * 2 ^ exponentOf (num / den) := by
    rw [← Nat.pow_add]
    exact Nat.pow_le_pow_right (by decide) (by omega)
  constructor
  · exact hpow.trans (Nat.mul_le_mul_right _ (le_significandOf hden hne))
  · calc (2 ^ 54 - 1) * 2 ^ j * den ≤ 2 ^ (54 + j) * den := by
          rw [Nat.pow_add]
          exact Nat.mul_le_mul_right den (Nat.mul_le_mul_right _ (by decide))
      _ ≤ 2 ^ 52 * 2 ^ exponentOf (num / den) * den := Nat.mul_le_mul_right den hpow
      _ ≤ num := le_of_exponentOf_ne_zero hden hne

/-- A power of two is reached from the middle between it and its predecessor on, since its
significand is even. -/
theorem power_le_rounded_iff {j : Nat} (hden : 0 < den) :
    2 ^ (54 + j) ≤ rounded num den ↔ (2 ^ 54 - 1) * 2 ^ j * den ≤ num := by
  rcases Nat.lt_trichotomy (exponentOf (num / den)) (j + 1) with he | he | he
  · obtain ⟨hrounded, hnum⟩ := rounded_lt_power hden (Nat.le_of_lt_succ he)
    exact iff_of_false (Nat.not_le.mpr hrounded) (Nat.not_le.mpr hnum)
  · have hpow : 2 ^ (54 + j) = 2 ^ 53 * 2 ^ (j + 1) := by
      rw [← Nat.pow_add]
      congr 1
      omega
    have hmiddle : (2 * (2 ^ 53 - 1) + 1) * (den * 2 ^ (j + 1)) =
        2 * ((2 ^ 54 - 1) * 2 ^ j * den) := by
      rw [Nat.pow_succ]
      ring
    have hbelow : significandOf num den ≤ 2 ^ 53 - 1 ↔ num < (2 ^ 54 - 1) * 2 ^ j * den := by
      rw [significandOf, he, nearestQuotient_le_iff (Nat.mul_pos hden (Nat.two_pow_pos _)),
        hmiddle, Nat.mul_lt_mul_left (by decide : 0 < 2)]
      exact or_iff_left fun h => absurd h.1 (by decide)
    rw [rounded, he, hpow, Nat.mul_le_mul_right_iff (Nat.two_pow_pos _), ← Nat.not_lt,
      Nat.lt_iff_le_pred (by decide), hbelow, Nat.not_lt]
  · obtain ⟨hrounded, hnum⟩ := power_le_rounded hden he
    exact iff_of_true hrounded hnum

theorem nearest?_eq_none_iff (hden : 0 < den) :
    nearest? num den = none ↔ overflow * unitsInOne * den ≤ num := by
  obtain ⟨j, hmax, -, hoverflow⟩ := overflow_units
  have htop : 53 + maxExponent = 54 + j := by omega
  rw [hoverflow, ← power_le_rounded_iff hden, ← htop]
  rcases nearest?_cases num hden with ⟨m, hm, hunits⟩ | ⟨hnone, hle⟩
  · rw [hm, ← hunits]
    exact iff_of_false nofun (Nat.not_le.mpr m.units_lt)
  · exact iff_of_true hnone hle

theorem exists_nearest? (hden : 0 < den) (h : num < overflow * unitsInOne * den) :
    ∃ m, nearest? num den = some m := by
  rw [← Option.ne_none_iff_exists', Ne, nearest?_eq_none_iff hden]
  exact Nat.not_le.mpr h

/-- One more is not too much for the greatest magnitude. -/
theorem units_add_lt_overflow (m : Magnitude) (hn : n ≤ unitsInOne) :
    m.units + n < overflow * unitsInOne := by
  obtain ⟨j, hmax, hone, hoverflow⟩ := overflow_units
  have hsig : m.significand ≤ 2 ^ 53 - 1 := Nat.le_pred_of_lt m.canonical.1
  have hexp : 2 ^ m.exponent ≤ 2 ^ (j + 1) :=
    Nat.pow_le_pow_right (by decide) (hmax ▸ m.canonical.2.1)
  calc m.units + n ≤ (2 ^ 53 - 1) * 2 ^ (j + 1) + n := by
        rw [units_eq]
        exact Nat.add_le_add_right (Nat.mul_le_mul hsig hexp) n
    _ < (2 ^ 53 - 1) * 2 ^ (j + 1) + 2 ^ j := Nat.add_lt_add_left (hn.trans_lt hone) _
    _ = overflow * unitsInOne := by
        rw [hoverflow, Nat.pow_succ 2 j]
        ring

end Magnitude

end Binary64

end Peg
