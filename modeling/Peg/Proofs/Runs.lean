import Mathlib.Data.Nat.Digits.Defs
import Mathlib.Tactic.Ring
import Peg.Text.Numeral

/-!
# Runs of code points

Blanks and numerals are runs of code points of one class. A run is as long as it can be if
what follows it does not begin with a code point of the class.

A numeral is read from the front, every digit adding to ten times what there was before.
That makes it the number in positional notation, which counts the digits from behind.
-/

namespace Peg

variable {p : CodePoint → Prop} {c : CodePoint} {s t : Text}

/-- Every code point of the text is of the class. -/
def IsRun (p : CodePoint → Prop) (t : Text) : Prop := ∀ c ∈ t, p c

/-- The text does not go on with a code point of the class. -/
def EndsRun (p : CodePoint → Prop) (s : Text) : Prop := ∀ c, s.head? = some c → ¬ p c

theorem IsRun.nil : IsRun p [] := nofun

theorem IsRun.cons (hc : p c) (ht : IsRun p t) : IsRun p (c :: t) :=
  List.forall_mem_cons.mpr ⟨hc, ht⟩

theorem IsRun.append (hs : IsRun p s) (ht : IsRun p t) : IsRun p (s ++ t) :=
  List.forall_mem_append.mpr ⟨hs, ht⟩

theorem EndsRun.nil : EndsRun p [] := nofun

theorem EndsRun.cons (hc : ¬ p c) : EndsRun p (c :: s) := by
  intro d hd
  rwa [← Option.some.inj hd]

/-- A run of another class does not go on with a code point of this one, nor does what follows
it. -/
theorem EndsRun.after {q : CodePoint → Prop} (hs : EndsRun p s) (ht : IsRun q t)
    (hpq : ∀ c, q c → ¬ p c) : EndsRun p (t ++ s) := by
  cases t with
  | nil => exact hs
  | cons c t => exact .cons (hpq c (ht c List.mem_cons_self))

/-! ## Digits -/

abbrev AreDigits (t : Text) : Prop := IsRun (·.isDigit = true) t

abbrev NoDigit (s : Text) : Prop := EndsRun (·.isDigit = true) s

namespace Numeral

variable {ds : List Nat}

theorem ofDigits_eq (ds : List Nat) : ofDigits ds = Nat.ofDigits 10 ds.reverse := by
  have hfold : ∀ n, ds.foldl (fun n d => n * 10 + d) n =
      n * 10 ^ ds.length + Nat.ofDigits 10 ds.reverse := by
    induction ds with
    | nil => simp
    | cons d ds ih =>
        intro n
        rw [List.foldl_cons, ih, List.reverse_cons, Nat.ofDigits_append, Nat.ofDigits_singleton,
          List.length_reverse, List.length_cons, pow_succ]
        ring
  rw [ofDigits, hfold 0, Nat.zero_mul, Nat.zero_add]

theorem ofDigits_lt (h : ∀ d ∈ ds, d < 10) : ofDigits ds < 10 ^ ds.length := by
  rw [ofDigits_eq, ← List.length_reverse]
  exact Nat.ofDigits_lt_base_pow_length (by decide) fun d hd => h d (List.mem_reverse.mp hd)

end Numeral

end Peg
