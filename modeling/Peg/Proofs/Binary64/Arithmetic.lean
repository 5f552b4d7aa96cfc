import Peg.Binary64.Arithmetic
import Peg.Proofs.Binary64.Rounding

/-!
# Bounds on results

Where an operation gives a finite number, how large that can be, and where it gives zero, an
infinity or NaN. A sum or a quotient of numbers that are not negative stays below a bound
that is a number itself; a factor of at most one enlarges nothing; and a product is NaN only
where zero meets an infinity.

The powers of ten are zero from ten to the -324 on down.
-/

namespace Peg

namespace Binary64

variable {x y : Binary64} {s t : Bool} {num den j k n : Nat}

/-! ## Quotients -/

theorem ofUnits_ne_nan : ofUnits s num den ≠ .nan := by
  unfold ofUnits
  cases Magnitude.nearest? num den <;> exact nofun

theorem ofUnits_eq_infinite (hden : 0 < den) (h : overflow * unitsInOne * den ≤ num) :
    ofUnits s num den = .infinite s := by
  have hnone := (Magnitude.nearest?_eq_none_iff hden).mpr h
  unfold ofUnits
  rw [hnone]

theorem ofUnits_eq_finite (s : Bool) (hden : 0 < den) (h : num < overflow * unitsInOne * den) :
    ∃ m, ofUnits s num den = .finite s m ∧ Magnitude.nearest? num den = some m := by
  obtain ⟨m, hm⟩ := Magnitude.exists_nearest? hden h
  refine ⟨m, ?_, hm⟩
  unfold ofUnits
  rw [hm]

theorem ofUnits_isZero_iff (hden : 0 < den) :
    (ofUnits s num den).isZero = true ↔ 2 * num ≤ den := by
  rcases Nat.lt_or_ge num (overflow * unitsInOne * den) with h | h
  · obtain ⟨m, hm, hnearest⟩ := ofUnits_eq_finite s hden h
    rw [hm]
    exact Magnitude.isZero_iff_of_nearest? hden hnearest
  · have hone : 1 * den ≤ overflow * unitsInOne * den :=
      Nat.mul_le_mul_right den overflow_units_pos
    rw [ofUnits_eq_infinite hden h]
    exact iff_of_false nofun (by omega)

/-! ## Integers -/

theorem ofNat_ne_nan : ofNat n ≠ .nan := ofUnits_ne_nan

theorem ofNat_isZero_iff : (ofNat n).isZero = true ↔ n = 0 := by
  rw [ofNat, ofRatio, ofUnits_isZero_iff Nat.one_pos]
  constructor
  · intro hle
    by_contra hne
    have hpos : 0 < n * unitsInOne := Nat.mul_pos (Nat.pos_of_ne_zero hne) unitsInOne_pos
    omega
  · rintro rfl
    rw [Nat.zero_mul]
    exact Nat.zero_le 1

theorem isSome_ofInt?_iff (i : Int) : (ofInt? i).isSome = true ↔ i.natAbs < overflow := by
  rw [ofInt?, Option.isSome_map, Option.isSome_iff_ne_none, Ne,
    Magnitude.nearest?_eq_none_iff Nat.one_pos, Nat.mul_one, Nat.not_le,
    Nat.mul_lt_mul_right unitsInOne_pos]

theorem ofNat_eq_infinite (h : overflow ≤ n) : ofNat n = .infinite false := by
  refine ofUnits_eq_infinite Nat.one_pos ?_
  rw [Nat.mul_one]
  exact Nat.mul_le_mul_right unitsInOne h

theorem ofNat_eq_finite (h : n < overflow) : ∃ m, ofNat n = .finite false m := by
  have hlt : n * unitsInOne < overflow * unitsInOne * 1 := by
    rw [Nat.mul_one]
    exact Nat.mul_lt_mul_of_pos_right h unitsInOne_pos
  obtain ⟨m, hm, -⟩ := ofUnits_eq_finite false Nat.one_pos hlt
  exact ⟨m, hm⟩

/-! ## Numbers up to a bound -/

/-- The number is finite, of the given sign and of at most `n` units. -/
def IsWithin (s : Bool) (n : Nat) (x : Binary64) : Prop :=
  ∃ m, x = .finite s m ∧ m.units ≤ n

theorem ofUnits_isWithin (hden : 0 < den) (hn : IsRepresentable n)
    (hfinite : n < overflow * unitsInOne) (h : num ≤ n * den) :
    IsWithin s n (ofUnits s num den) := by
  have hlt : num < overflow * unitsInOne * den :=
    h.trans_lt (Nat.mul_lt_mul_of_pos_right hfinite hden)
  obtain ⟨m, hm, hnearest⟩ := ofUnits_eq_finite s hden hlt
  exact ⟨m, hm, Magnitude.units_le_of_nearest? hden hn h hnearest⟩

/-- What can be represented is not rounded. -/
theorem ofUnits_exact (s : Bool) (hden : 0 < den) (hn : IsRepresentable n)
    (hfinite : n < overflow * unitsInOne) :
    ∃ m, ofUnits s (n * den) den = .finite s m ∧ m.units = n := by
  have hlt : n * den < overflow * unitsInOne * den := Nat.mul_lt_mul_of_pos_right hfinite hden
  obtain ⟨m, hm, hnearest⟩ := ofUnits_eq_finite s hden hlt
  have hle := Magnitude.units_le_of_nearest? hden hn (Nat.le_refl _) hnearest
  have hge := Magnitude.le_units_of_nearest? hden hn (Nat.le_refl _) hnearest
  exact ⟨m, hm, Nat.le_antisymm hle hge⟩

theorem ofNat_exact (hk : k ≤ 2 ^ 53) :
    ∃ m, ofNat k = .finite false m ∧ m.units = k * unitsInOne := by
  have hexact := ofUnits_exact false Nat.one_pos (isRepresentable_whole hk) (whole_lt_overflow hk)
  rwa [Nat.mul_one] at hexact

theorem finite_add_finite (a b : Magnitude) :
    (.finite false a + .finite false b : Binary64) = ofUnits false (a.units + b.units) 1 := by
  show (if (a.units : Int) + b.units = 0 then Binary64.zero false
    else ofUnits ((a.units : Int) + b.units < 0) ((a.units : Int) + b.units).natAbs 1) = _
  rw [← Int.natCast_add, Int.natAbs_natCast]
  by_cases hzero : a.units + b.units = 0
  · rw [hzero]
    rfl
  · have hne : ((a.units + b.units : Nat) : Int) ≠ 0 := by omega
    have hsign : ¬ ((a.units + b.units : Nat) : Int) < 0 := by omega
    rw [if_neg hne, decide_eq_false hsign]

/-! ## Sums and quotients of small numbers -/

theorem ofNat_isWithin (hkj : k ≤ j) (hj : j ≤ 2 ^ 53) :
    IsWithin false (j * unitsInOne) (ofNat k) := by
  obtain ⟨m, hm, hunits⟩ := ofNat_exact (hkj.trans hj)
  refine ⟨m, hm, ?_⟩
  rw [hunits]
  exact Nat.mul_le_mul_right unitsInOne hkj

theorem IsWithin.add (hx : IsWithin false (j * unitsInOne) x)
    (hy : IsWithin false (k * unitsInOne) y) (hjk : j + k ≤ 2 ^ 53) :
    IsWithin false ((j + k) * unitsInOne) (x + y) := by
  obtain ⟨a, rfl, ha⟩ := hx
  obtain ⟨b, rfl, hb⟩ := hy
  rw [finite_add_finite]
  refine ofUnits_isWithin Nat.one_pos (isRepresentable_whole hjk) (whole_lt_overflow hjk) ?_
  rw [Nat.mul_one, Nat.add_mul]
  exact Nat.add_le_add ha hb

theorem IsWithin.div (hx : IsWithin false (j * k * unitsInOne) x) (hj : j ≤ 2 ^ 53)
    (hpos : 0 < k) (hk : k ≤ 2 ^ 53) : IsWithin false (j * unitsInOne) (x / ofNat k) := by
  obtain ⟨a, rfl, ha⟩ := hx
  obtain ⟨b, hb, hunits⟩ := ofNat_exact hk
  have hbpos : 0 < b.units := by
    rw [hunits]
    exact Nat.mul_pos hpos unitsInOne_pos
  have hzero : b.isZero = false :=
    Bool.eq_false_iff.mpr fun h => Nat.ne_of_gt hbpos (Magnitude.isZero_iff.mp h)
  have hle : a.units * unitsInOne ≤ j * unitsInOne * b.units := by
    calc a.units * unitsInOne ≤ j * k * unitsInOne * unitsInOne := Nat.mul_le_mul_right _ ha
      _ = j * unitsInOne * b.units := by
          rw [hunits]
          ring
  rw [hb]
  show IsWithin false _ (if b.isZero then _ else ofUnits false (a.units * unitsInOne) b.units)
  rw [if_neg (by simp [hzero])]
  exact ofUnits_isWithin hbpos (isRepresentable_whole hj) (whole_lt_overflow hj) hle

/-! ## Products -/

/-- A factor of at most one does not enlarge a number. -/
theorem mul_isWithin {a : Magnitude} (hy : IsWithin t unitsInOne y) :
    IsWithin (s != t) a.units (.finite s a * y) := by
  obtain ⟨b, rfl, hb⟩ := hy
  show IsWithin (s != t) a.units (ofUnits (s != t) (a.units * b.units) unitsInOne)
  exact ofUnits_isWithin unitsInOne_pos a.isRepresentable
    (a.units_add_lt_overflow (Nat.zero_le _)) (Nat.mul_le_mul_left _ hb)

theorem mul_one_exact {a b : Magnitude} (hb : b.units = unitsInOne) :
    ∃ m, (.finite s a * .finite false b : Binary64) = .finite s m ∧ m.units = a.units := by
  have hexact := ofUnits_exact s unitsInOne_pos a.isRepresentable
    (a.units_add_lt_overflow (Nat.zero_le _))
  show ∃ m, ofUnits (s != false) (a.units * b.units) unitsInOne = _ ∧ _
  rwa [hb, Bool.bne_false]

theorem infinite_mul {b : Magnitude} (hb : b.isZero = false) :
    (.infinite s * .finite t b : Binary64) = .infinite (s != t) := by
  show (if b.isZero then _ else _) = _
  rw [if_neg (by simp [hb])]

theorem mul_infinite {a : Magnitude} (ha : a.isZero = false) :
    (.finite s a * .infinite t : Binary64) = .infinite (s != t) := by
  show (if a.isZero then _ else _) = _
  rw [if_neg (by simp [ha])]

/-- A number that is not zero has the product NaN only with NaN, and an infinity with
zero. -/
theorem mul_eq_nan_iff (hx : x ≠ .nan) (hzero : x.isZero = false) (hy : y ≠ .nan) :
    x * y = .nan ↔ (∃ s, x = .infinite s) ∧ y.isZero = true := by
  cases x with
  | nan => exact absurd rfl hx
  | infinite s =>
      cases y with
      | nan => exact absurd rfl hy
      | infinite t => exact iff_of_false nofun fun h => by cases h.2
      | finite t b =>
          by_cases hb : b.isZero = true
          · exact iff_of_true (if_pos hb) ⟨⟨s, rfl⟩, hb⟩
          · rw [infinite_mul (Bool.eq_false_iff.mpr hb)]
            exact iff_of_false nofun fun h => hb h.2
  | finite s a =>
      have hinfinite : ¬ ∃ s', (.finite s a : Binary64) = .infinite s' := by
        rintro ⟨_, h⟩
        cases h
      cases y with
      | nan => exact absurd rfl hy
      | infinite t =>
          rw [mul_infinite hzero]
          exact iff_of_false nofun fun h => hinfinite h.1
      | finite t b => exact iff_of_false ofUnits_ne_nan fun h => hinfinite h.1

/-! ## Powers of ten -/

/-- A negative power of ten is the reciprocal of a positive one, or too small to be anything
but zero. -/
theorem tenPower_of_nonpos {i : Int} (hi : i ≤ 0) :
    i < -400 ∧ tenPower i = .zero false ∨
      ∃ k : Nat, i = -k ∧ tenPower i = ofRatio false 1 (10 ^ k) := by
  obtain ⟨k, rfl⟩ := Int.exists_eq_neg_ofNat hi
  have hhigh : ¬ (308 : Int) < -k := by omega
  have hraised : (-k : Int) ∉ raisedPowers := by
    simp only [raisedPowers, List.mem_cons, List.not_mem_nil, or_false]
    omega
  by_cases hlow : (-k : Int) < -400
  · exact .inl ⟨hlow, by rw [tenPower, if_neg hhigh, if_pos hlow]⟩
  · refine .inr ⟨k, rfl, ?_⟩
    simp only [tenPower, if_neg hhigh, if_neg hlow, if_neg hraised]
    rcases Nat.eq_zero_or_pos k with rfl | hpos
    · exact if_pos (Int.le_refl 0)
    · have hneg : ¬ (0 : Int) ≤ -k := by omega
      rw [if_neg hneg, Int.natAbs_neg, Int.natAbs_natCast]
      rfl

/-- A power of ten with a whole exponent is at least one. -/
theorem tenPower_of_nonneg {i : Int} (hi : 0 ≤ i) :
    tenPower i ≠ .nan ∧ (tenPower i).isZero = false := by
  by_cases hhigh : 308 < i
  · rw [tenPower, if_pos hhigh]
    exact ⟨nofun, rfl⟩
  · by_cases hraised : i ∈ raisedPowers
    · rcases (by simpa [raisedPowers] using hraised : i = 23 ∨ i = 210) with rfl | rfl
      · decide +kernel
      · decide +kernel
    · have hlow : ¬ i < -400 := by omega
      have hpower : tenPower i = ofNat (10 ^ i.toNat) := by
        simp only [tenPower, if_neg hhigh, if_neg hlow, if_pos hi, if_neg hraised]
        rfl
      rw [hpower]
      refine ⟨ofNat_ne_nan, Bool.eq_false_iff.mpr fun hzero => ?_⟩
      exact absurd (ofNat_isZero_iff.mp hzero) (Nat.ne_of_gt (Nat.pow_pos (by decide)))

theorem tenPower_ne_nan (i : Int) : tenPower i ≠ .nan := by
  rcases Int.le_total 0 i with hi | hi
  · exact (tenPower_of_nonneg hi).1
  · rcases tenPower_of_nonpos hi with ⟨-, h⟩ | ⟨k, -, h⟩
    · rw [h]
      exact nofun
    · rw [h]
      exact ofUnits_ne_nan

/-- Half a unit is more than ten to the -324, and less than ten to the -323. -/
theorem tenPower_isZero_iff (i : Int) : (tenPower i).isZero = true ↔ i ≤ -324 := by
  rcases Int.le_total 0 i with hi | hi
  · rw [(tenPower_of_nonneg hi).2]
    exact iff_of_false nofun (by omega)
  · rcases tenPower_of_nonpos hi with ⟨hlow, h⟩ | ⟨k, rfl, h⟩
    · rw [h]
      exact iff_of_true rfl (by omega)
    · rw [h, ofRatio, ofUnits_isZero_iff (Nat.pow_pos (by decide)), Nat.one_mul]
      constructor
      · intro hle
        by_contra hnot
        have hk : k ≤ 323 := by omega
        have hpow : 10 ^ k ≤ 10 ^ 323 := by gcongr; decide
        have hpositive : ¬ 2 * unitsInOne ≤ 10 ^ 323 := by decide +kernel
        exact hpositive (hle.trans hpow)
      · intro hle
        have hk : 324 ≤ k := by omega
        have hpow : 10 ^ 324 ≤ 10 ^ k := by gcongr; decide
        have hzero : 2 * unitsInOne ≤ 10 ^ 324 := by decide +kernel
        exact hzero.trans hpow

/-- A power of ten is at most one unless its exponent is positive. -/
theorem tenPower_isWithin {i : Int} (hi : i ≤ 0) : IsWithin false unitsInOne (tenPower i) := by
  rcases tenPower_of_nonpos hi with ⟨-, h⟩ | ⟨k, -, h⟩
  · rw [h]
    exact ⟨.zero, rfl, Nat.zero_le _⟩
  · have hone := isRepresentable_whole (k := 1) (by decide)
    have hfinite := whole_lt_overflow (k := 1) (by decide)
    have hpos : 0 < 10 ^ k := Nat.pow_pos (by decide)
    rw [Nat.one_mul] at hone hfinite
    rw [h, ofRatio, Nat.one_mul]
    exact ofUnits_isWithin hpos hone hfinite (Nat.le_mul_of_pos_right _ hpos)

end Binary64

end Peg
