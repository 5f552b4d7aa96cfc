import Peg.Proofs.Answer
import Peg.Proofs.Json.Loads

/-!
# Strings are decoded

The node of strings undoes every way to write a text as a string. It does so in any
context: what follows the closing quotation mark is not looked at, because a string is never
the beginning of another one. And it matches nothing but strings, so where an attempt
succeeds, the text that it consumed was one way to write the value.

Every text can be written, with surrogates in it or with code points that have to be
escaped.
-/

namespace Peg.Json

open Context

variable {e e' s s' w : Text}

/-! ## Ways to write a text -/

theorem exists_isHexDigit {n : Nat} (hn : n < 16) : ∃ c, IsHexDigit c n := by
  by_cases hten : n < 10
  · have hdigit : IsHexDigit ⟨0x30 + n, by omega⟩ (0x30 + n - 0x30) :=
      .digit (by simp) (by simp only; omega)
    rw [Nat.add_sub_cancel_left] at hdigit
    exact ⟨_, hdigit⟩
  · have hletter : IsHexDigit ⟨0x61 + (n - 10), by omega⟩ (0x61 + (n - 10) - 0x61 + 10) :=
      .lower (by simp) (by simp only; omega)
    rw [Nat.add_sub_cancel_left, Nat.sub_add_cancel (by omega)] at hletter
    exact ⟨_, hletter⟩

/-- A code point that may not stand for itself has an escape. -/
theorem exists_isChar (c : CodePoint) : ∃ t, IsChar t c := by
  by_cases hlow : c.val < 0x20
  · obtain ⟨z, hz⟩ := exists_isHexDigit (n := 0) (by omega)
    obtain ⟨k, hk⟩ := exists_isHexDigit (n := c.val / 16) (by omega)
    obtain ⟨l, hl⟩ := exists_isHexDigit (n := c.val % 16) (by omega)
    exact ⟨_, .unicode hz hz hk hl (by omega)⟩
  · by_cases hquote : c = quotationMark
    · have hmem : ('"', '"') ∈ escapeMeanings := by decide
      rw [hquote]
      exact ⟨_, .escape hmem⟩
    · by_cases hslash : c = backslash
      · have hmem : ('\\', '\\') ∈ escapeMeanings := by decide
        rw [hslash]
        exact ⟨_, .escape hmem⟩
      · exact ⟨_, .plain (by omega) hquote hslash⟩

theorem exists_isString (s : Text) : ∃ e, IsString e s := by
  have hchars : ∃ t, AreChars t s := by
    induction s with
    | nil => exact ⟨[], .nil⟩
    | cons c s ih =>
        obtain ⟨t, ht⟩ := exists_isChar c
        obtain ⟨u, hu⟩ := ih
        exact ⟨t ++ u, .cons ht hu⟩
  obtain ⟨t, ht⟩ := hchars
  exact ⟨_, .intro ht⟩

/-- No string begins with another one, and a string is written for one text only. -/
theorem IsString.eq_of_prefix (h : IsString e s) (h' : IsString e' s') (hbegins : e <+: e' ++ w) :
    e = e' ∧ s = s' := by
  obtain ⟨rest, hrest⟩ := hbegins
  have hread := reads_string h rest
  rw [hrest] at hread
  have heq := hread.unique (reads_string h' w)
  injection heq with hvalue hleft
  injection hvalue with htext
  rw [hleft] at hrest
  exact ⟨List.append_cancel_right hrest, htext⟩

/-! ## Attempts -/

/-- With twelve levels or more a text is decoded in whatever way and wherever it is written;
and what is decoded was written in one of these ways. -/
theorem string_decoding {limit : Nat} (hlimit : 12 ≤ limit) :
    (∀ u e w s, IsString e s →
      attempt context limit (stringValue id) (u ++ (e ++ w)) u.length =
        .ok (.matched (.text s) e.length)) ∧
    ∀ (text : Text) (pos : Nat), pos ≤ text.length → ∀ v n,
      attempt context limit (stringValue id) text pos = .ok (.matched v n) →
      ∃ s, v = .text s ∧ IsString (text.slice pos (pos + n)) s := by
  have hregular : context.IsRegular (stringValue id) := isRegular_rule .stringValue
  constructor
  · intro u e w s he
    exact (reads_string he w).attempt hregular hlimit
  · intro text pos hpos v n hattempt
    obtain ⟨t, rest, hslice, -, hmatch⟩ := matches_of_attempt hregular hpos hattempt
    obtain ⟨e, s, heq, he, rfl⟩ := matches_string hmatch
    obtain rfl := List.append_cancel_right heq
    rw [hslice]
    exact ⟨s, rfl, he⟩

/-- A code point as it is, an escape of one letter and one of four digits in both cases,
which stands for a surrogate; another quotation mark follows. -/
theorem string_decoding_mixed :
    attempt context 12 (stringValue id) ("[" ++ ("\"a\\n\\uD83d\"" ++ "\"]")) (1 : Nat) =
        .ok (.matched (.text [0x61, 0x0A, 0xD83D]) 11) ∧
      IsString (Text.slice ("[" ++ ("\"a\\n\\uD83d\"" ++ "\"]")) 1 12) [0x61, 0x0A, 0xD83D] := by
  have hchar : IsChar "a" 0x61 := .plain (by decide) (by decide) (by decide)
  have hletter : IsChar "\\n" 0x0A := .escape (e := 'n') (c := '\n') (by decide)
  have hsurrogate : IsChar "\\uD83d" 0xD83D :=
    .unicode (.upper (by decide) (by decide)) (.digit (by decide) (by decide))
      (.digit (by decide) (by decide)) (.lower (by decide) (by decide)) rfl
  have hstring : IsString "\"a\\n\\uD83d\"" [0x61, 0x0A, 0xD83D] :=
    .intro (.cons hchar (.cons hletter (.cons hsurrogate .nil)))
  have hmatched := (string_decoding (by decide : 12 ≤ 12)).1 "[" _ "\"]" _ hstring
  obtain ⟨s, hs, hslice⟩ := (string_decoding (by decide)).2 _ 1 (by decide) _ _ hmatched
  injection hs with hs
  exact ⟨hmatched, hs ▸ hslice⟩

end Peg.Json
