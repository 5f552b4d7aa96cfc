import Peg.Proofs.Json.Loads
import Peg.Proofs.Totality

/-!
# No action of the JSON grammar goes wrong

Each action of the grammar states the shape of the results that it can be given, and the
node it belongs to has only results of that shape. A digit is given one of the ten digits,
the number its four parts, the string a list of elements each of which stands for a code
point, a value the item that it has between its blanks, and brackets the items or the
blanks that are in them. So the grammar is total.
-/

namespace Peg.Json

open Context

/-- The action gives a value on whatever the item matches. -/
def Suits (item : Node Action) (act : Action) : Prop :=
  ∀ s v rest, context.Matches item s v rest → ∃ w, act.denote? v = some w

/-! ## Digits -/

theorem suits_zero : Suits (.literal "0") .digit := by
  intro s v rest h
  obtain ⟨rfl, -⟩ := h.literal
  exact ⟨_, rfl⟩

theorem suits_nonzeroDigit : Suits (span '1' '9') .digit := by
  intro s v rest h
  obtain ⟨c, -, rfl, hlow, hhigh⟩ := h.range
  have hc : c.isDigit = true := CodePoint.isDigit_iff.mpr
    ⟨Nat.le_of_succ_le (Int.ofNat_le.mp hlow), Int.ofNat_le.mp hhigh⟩
  exact ⟨_, denote_digit.mpr ⟨hc, rfl⟩⟩

theorem suits_lowerHexDigit : Suits (span 'a' 'f') .lowerHexDigit := by
  intro s v rest h
  obtain ⟨c, -, rfl, hlow, hhigh⟩ := h.range
  have hin : 0x61 ≤ c.val ∧ c.val < 0x61 + 6 :=
    ⟨Int.ofNat_le.mp hlow, Nat.lt_succ_of_le (Int.ofNat_le.mp hhigh)⟩
  exact ⟨_, (hexLetter_text rfl).mpr ⟨hin, rfl⟩⟩

theorem suits_upperHexDigit : Suits (span 'A' 'F') .upperHexDigit := by
  intro s v rest h
  obtain ⟨c, -, rfl, hlow, hhigh⟩ := h.range
  have hin : 0x41 ≤ c.val ∧ c.val < 0x41 + 6 :=
    ⟨Int.ofNat_le.mp hlow, Nat.lt_succ_of_le (Int.ofNat_le.mp hhigh)⟩
  exact ⟨_, (hexLetter_text rfl).mpr ⟨hin, rfl⟩⟩

/-! ## Numbers, strings and values -/

theorem suits_number : Suits (number id) .number := by
  intro s v rest h
  obtain ⟨t, p, -, -, hp⟩ := matches_rawNumber h
  exact ⟨p.toValue, by rw [Action.denote?, hp, Option.map_some]⟩

theorem suits_string : Suits (string id) .string := by
  intro s v rest h
  obtain ⟨t, name, -, -, hname⟩ := matches_rawString h
  exact ⟨_, hname⟩

/-- What stands between the blanks of a value is a keyword, or was captured. -/
theorem suits_value : Suits (.sequence [whitespace, core, whitespace]) .value := by
  intro s v rest h
  obtain ⟨_, rfl, a, m₁, _, rfl, -, b, m₂, _, rfl, hb, c, m₃, _, rfl, -, rfl, -⟩ := h.sequence
  obtain ⟨n, hn, hmatch⟩ := hb.choice
  simp only [List.mem_cons, List.not_mem_nil, or_false] at hn
  rcases hn with rfl | rfl | rfl | rfl | rfl
  · obtain ⟨k, hk, rfl, -⟩ := hmatch.literals
    simp only [List.mem_cons, List.not_mem_nil, or_false] at hk
    rcases hk with rfl | rfl | rfl <;> exact ⟨_, rfl⟩
  all_goals
    obtain ⟨w, rfl, -⟩ := hmatch.capture
    exact ⟨w, rfl⟩

theorem suits_array : Suits (bracketed '[' ']' "items" valueRef) .array := by
  intro s v rest h
  obtain ⟨ms, bs, hms, -⟩ := matches_bracketed (P := IsValue s.length) (by decide)
    (fun s' v rest hlt hv => ⟨v, rfl, matches_value hlt hv⟩) h
  exact ⟨_, denote_array.mpr ⟨ms, hms, rfl⟩⟩

theorem suits_object : Suits (bracketed '\x7b' '\x7d' "pairs" (pair id)) .object := by
  intro s v rest h
  obtain ⟨ms, ps, hms, hps, -⟩ := matches_bracketed (P := IsMember s.length) (by decide)
    (fun s' v rest hlt hpair => matches_pair
      (fun s'' v rest hle hv => matches_value (by omega) hv) hpair) h
  exact ⟨_, denote_object.mpr ⟨ms, ps, hms, hps, rfl⟩⟩

/-! ## The rules -/

section EveryAction

open Node

@[simp] theorem everyAction_span {P : Node Action → Action → Prop} (low high : Char) :
    (span low high).EveryAction P ↔ True := Iff.rfl

theorem everyAction_nonzeroDigit : (nonzeroDigit id).EveryAction Suits :=
  ⟨suits_nonzeroDigit, trivial⟩

theorem everyAction_digit : (digit id).EveryAction Suits := by
  simp [digit, suits_zero, everyAction_nonzeroDigit]

theorem everyAction_hexDigit : (hexDigit id).EveryAction Suits := by
  simp [hexDigit, everyAction_digit, suits_lowerHexDigit, suits_upperHexDigit]

theorem everyAction_number : (number id).EveryAction Suits := by
  simp [number, everyAction_digit, everyAction_nonzeroDigit]

theorem everyAction_numberValue : (numberValue id).EveryAction Suits :=
  ⟨suits_number, everyAction_number⟩

theorem everyAction_string : (string id).EveryAction Suits := by
  have hdigits : ((hexDigit id).exactly 4).EveryAction Suits :=
    everyAction_exactly everyAction_hexDigit 4
  simp [string, plain, escape, hdigits]

theorem everyAction_stringValue : (stringValue id).EveryAction Suits :=
  ⟨suits_string, everyAction_string⟩

theorem everyAction_whitespace : (whitespace : Node Action).EveryAction Suits := by
  simp [whitespace]

theorem everyAction_value : (value id).EveryAction Suits := by
  refine ⟨suits_value, ?_⟩
  simp [objectRef, arrayRef, everyAction_whitespace, everyAction_numberValue,
    everyAction_stringValue]

theorem everyAction_bracketed {opening closing : Char} {label : Text} {item : Node Action}
    (h : item.EveryAction Suits) :
    (bracketed opening closing label item).EveryAction Suits := by
  simp [bracketed, everyAction_whitespace, h]

theorem everyAction_array : (array id).EveryAction Suits :=
  ⟨suits_array, everyAction_bracketed trivial⟩

theorem everyAction_pair : (pair id).EveryAction Suits := by
  simp [pair, valueRef, everyAction_whitespace, everyAction_stringValue]

theorem everyAction_object : (object id).EveryAction Suits :=
  ⟨suits_object, everyAction_bracketed everyAction_pair⟩

theorem everyAction_rule (r : Rule) : (r.node id).EveryAction Suits := by
  cases r with
  | whitespace => exact everyAction_whitespace
  | nonzeroDigit => exact everyAction_nonzeroDigit
  | digit => exact everyAction_digit
  | number => exact everyAction_number
  | numberValue => exact everyAction_numberValue
  | hexDigit => exact everyAction_hexDigit
  | string => exact everyAction_string
  | stringValue => exact everyAction_stringValue
  | valueRef | arrayRef | objectRef => trivial
  | value => exact everyAction_value
  | array => exact everyAction_array
  | pair => exact everyAction_pair
  | object => exact everyAction_object

end EveryAction

/-- No rule can come to an action that does not suit its item. -/
theorem isTotal_rule (r : Rule) : context.IsTotal (r.node id) := by
  intro item act hreach s v rest hmatch
  have htargets : ∀ e ∈ context.bindings.entries, e.2.EveryAction Suits := by
    intro e he
    simp only [context, bindInto, Bindings.bind, Bindings.empty, List.mem_cons,
      List.not_mem_nil, or_false] at he
    rcases he with rfl | rfl | rfl
    · exact everyAction_object
    · exact everyAction_array
    · exact everyAction_value
  obtain ⟨w, hw⟩ := everyAction_of_reaches (everyAction_rule r) htargets hreach s v rest hmatch
  exact ⟨w, perform_eq_value.mpr hw⟩

end Peg.Json
