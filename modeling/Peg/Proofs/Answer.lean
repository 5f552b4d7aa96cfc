import Peg.Proofs.Agreement
import Peg.Proofs.Rules

/-!
# Attempts as readings

An attempt on a regular grammar answers what the reading of the text from its position on
comes to. It matches with the value that is read, and has consumed what was taken off the
front of the text; it fails where the reading finds no match. So a statement about the
readings of a rule is one about its attempts, at any position and under any limit.
-/

namespace Peg

variable {α : Type} [Named α] {ctx : Context α} {limit : Nat} {node : Node α} {text : Text}
  {pos : Nat}

/-- The answer of an attempt is that of the reading, whichever it is. -/
theorem attempt_answers_reading (limit : Nat) (hnode : ctx.IsRegular node)
    (hpos : pos ≤ text.length) :
    match readNode ctx limit node (text.drop pos) with
    | .matched v rest => ∃ t, text.drop pos = t ++ rest ∧
        attempt ctx limit node text pos = .ok (.matched v t.length)
    | .mismatch => ∃ e, attempt ctx limit node text pos = .ok (.failed e)
    | .stuck => ∃ h, attempt ctx limit node text pos = .error h := by
  rw [attempt]
  rcases matchNode_agrees limit hnode hpos with h | ⟨⟨t, p, ho⟩, hr⟩
  · cases hr : readNode ctx limit node (text.drop pos) with
    | matched w rest =>
        obtain ⟨t, ht⟩ := readNode_suffix hr
        rw [hr] at h
        obtain ⟨q, hq, ho, rfl⟩ := h.success_of_matched
        have hlength := congrArg List.length ht
        simp only [List.length_append, List.length_drop] at hlength
        have hstop : (q : Int) - pos = t.length := by
          rcases Nat.lt_or_ge q pos with hlt | hge <;> omega
        exact ⟨t, ht.symm, by rw [ho, Outcome.toAttempt, hstop]⟩
    | mismatch =>
        rw [hr] at h
        obtain ⟨e, ho⟩ := h.failure_of_mismatch
        exact ⟨e, by rw [ho]; rfl⟩
    | stuck =>
        rw [hr] at h
        exact ⟨_, by rw [h.fault_of_stuck]; rfl⟩
  · rw [hr, ho]
    exact ⟨_, rfl⟩

/-- An attempt matches what is read, and has consumed what was taken off the text. -/
theorem attempt_matched_iff (hnode : ctx.IsRegular node) (hpos : pos ≤ text.length)
    {v : Value α} {n : Int} :
    attempt ctx limit node text pos = .ok (.matched v n) ↔
      ∃ t rest, text.drop pos = t ++ rest ∧ n = t.length ∧
        readNode ctx limit node (text.drop pos) = .matched v rest := by
  have h := attempt_answers_reading limit hnode hpos
  cases hr : readNode ctx limit node (text.drop pos) with
  | matched w rest =>
      rw [hr] at h
      obtain ⟨t, ht, hanswer⟩ := h
      rw [hanswer]
      constructor
      · intro heq
        cases heq
        exact ⟨t, rest, ht, rfl, rfl⟩
      · rintro ⟨t', rest', ht', rfl, heq⟩
        cases heq
        obtain rfl := List.append_cancel_right (ht.symm.trans ht')
        rfl
  | mismatch =>
      rw [hr] at h
      obtain ⟨e, hanswer⟩ := h
      simp [hanswer]
  | stuck =>
      rw [hr] at h
      obtain ⟨e, hanswer⟩ := h
      simp [hanswer]

theorem Text.slice_of_drop {t rest : Text} (hpos : pos ≤ text.length)
    (h : text.drop pos = t ++ rest) : text.slice pos (pos + t.length) = t := by
  have hlength := congrArg List.length h
  simp only [List.length_append, List.length_drop] at hlength
  have hstop : Text.anchor text.length ((pos : Int) + t.length) = pos + t.length := by
    rw [← Int.natCast_add]
    exact anchor_eq (by omega)
  rw [Text.slice, anchor_eq hpos, hstop, List.drop_take, Nat.add_sub_cancel_left, h,
    List.take_left]

/-- A text that an attempt consumes is one that its node matches where it stands. -/
theorem matches_of_attempt (hnode : ctx.IsRegular node) (hpos : pos ≤ text.length) {v : Value α}
    {n : Int} (h : attempt ctx limit node text pos = .ok (.matched v n)) :
    ∃ t rest, text.slice pos (pos + n) = t ∧ n = t.length ∧
      ctx.Matches node (t ++ rest) v rest := by
  obtain ⟨t, rest, hdrop, rfl, hread⟩ := (attempt_matched_iff hnode hpos).mp h
  refine ⟨t, rest, Text.slice_of_drop hpos hdrop, rfl, limit, ?_⟩
  rw [← hdrop]
  exact hread

/-- What is read from the rest of a text is what an attempt in front of it matches. -/
theorem Context.Reads.attempt {levels : Nat} {u t rest : Text} {v : Value α}
    (h : ctx.Reads levels node (t ++ rest) (.matched v rest)) (hnode : ctx.IsRegular node)
    (hlimit : levels ≤ limit) :
    attempt ctx limit node (u ++ (t ++ rest)) u.length = .ok (.matched v t.length) := by
  have hpos : u.length ≤ (u ++ (t ++ rest)).length := by simp
  have hdrop : (u ++ (t ++ rest)).drop u.length = t ++ rest := List.drop_left
  rw [attempt_matched_iff hnode hpos, hdrop]
  exact ⟨t, rest, rfl, rfl, h limit hlimit⟩

end Peg
