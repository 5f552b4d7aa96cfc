import Peg.Proofs.Json.Document

/-!
# Decoding JSON

The function `loads` decodes exactly JSON. A value that it gives is denoted by the
text, a text that is JSON is decoded as long as its arrays and objects do not nest more
than forty deep, however long it is, and a text that is not JSON is refused: with an
error about the text, and with no other.
-/

namespace Peg.Json

open Context

variable {t : Text} {v : Value Action}

/-! ## The grammar -/

theorem perform_isPlain (act : Action) (v : Value Action) : (context.perform act v).IsPlain := by
  show (act.perform v).IsPlain
  unfold Action.perform
  cases act.denote? v with
  | some w => trivial
  | none => exact ⟨rfl, by decide⟩

theorem isRegular_rule (r : Rule) : context.IsRegular (r.node id) := by
  cases r <;> exact isRegular_of_isReady (by decide) (by decide) perform_isPlain

theorem isRegular_valueRef : context.IsRegular valueRef := isRegular_rule .valueRef

/-- Arrays and objects are entered from a value before anything is taken off the text,
and a value from them only behind a bracket. -/
def rank (id : Nat) : Nat := if id = valueId then 1 else 0

theorem isRanked : context.IsRanked rank 2 where
  le_top id := by
    unfold rank
    split <;> decide
  guarded := by decide

theorem settles_rule (r : Rule) (t : Text) : context.Settles (r.node id) t :=
  isRanked.settles (r.node id) t 2 (Node.guarded_top isRanked.le_top _) (isRegular_rule r)

theorem settles_valueRef (t : Text) : context.Settles valueRef t := settles_rule .valueRef t

/-! ## What is decoded -/

theorem isJson_of_matches (h : context.Matches valueRef t v []) : IsJson (t.length + 1) t v := by
  obtain ⟨w₁, u, w₂, hw₁, hu, hw₂, ht⟩ := matches_value (Nat.lt_succ_self _) h
  exact ⟨w₁, u, w₂, hw₁, hu, hw₂, by simpa using ht⟩

theorem IsJson.reads {n : Nat} (h : IsJson n t v) :
    context.Reads (14 * n + 17) valueRef t (.matched v []) := by
  obtain ⟨w₁, u, w₂, hw₁, hu, hw₂, rfl⟩ := h
  have hread := reads_value hw₁ hu hw₂ (s := []) fun c hc => by cases hc
  simpa using hread

/-- A text denotes one value at most, whatever bounds on the nesting it is read with. -/
theorem IsJson.unique {n m : Nat} {w : Value Action} (h : IsJson n t v) (h' : IsJson m t w) :
    v = w := by
  have heq := h.reads.unique h'.reads
  injection heq

section Loads

variable {β : Type} [Named β]

theorem loads_eq_ok_iff : (loads (.text t : Value β)).2 = .ok v ↔
    readNode context defaultLimit valueRef t = .matched v [] :=
  Grammar.parse_eq_ok_iff isRegular_valueRef

theorem isJson_of_loads (h : (loads (.text t : Value β)).2 = .ok v) :
    IsJson (t.length + 1) t v :=
  isJson_of_matches ⟨_, loads_eq_ok_iff.mp h⟩

/-- What `loads` gives is what the text denotes; a text that denotes something is decoded
unless it nests too deep; and a text that denotes nothing is refused. -/
theorem loads_decodes (t : Text) :
    (∀ v, (loads (.text t : Value β)).2 = .ok v → ∃ n, IsJson n t v) ∧
    (∀ n ≤ 40, ∀ v, IsJson n t v → (loads (.text t : Value β)).2 = .ok v) ∧
    ((∀ (n : Nat) (v : Value Action), ¬ IsJson n t v) →
      ∃ e, (loads (.text t : Value β)).2 = .error (.refused e (some t))) := by
  refine ⟨fun v hv => ⟨_, isJson_of_loads hv⟩, fun n hn v hv => ?_, fun hnone => ?_⟩
  · have hlimit : 14 * n + 17 ≤ defaultLimit := by
      simp only [defaultLimit]
      omega
    exact loads_eq_ok_iff.mpr (hv.reads _ hlimit)
  · exact Grammar.parse_refused isRegular_valueRef (settles_valueRef t)
      fun v hv => hnone _ v (isJson_of_loads hv)

end Loads

end Peg.Json
