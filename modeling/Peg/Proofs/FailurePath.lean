import Peg.Proofs.Answer
import Peg.Proofs.ErrorTree

/-!
# The path of a failure

A reading that finds no match does not say why, and an error is no part of it. But it says
which matches fail, and so it shows where the error of a failed attempt is from: a sequence
whose first item fails has the error of that item, an action whose item fails has the error
of the item, and so on down to a match that creates the error. `FailsThrough` is a place on
this path.

A run that fails has no fault anywhere, so every match of it ends as the reading from its
position does, and the number of levels that were left to it does not matter.
-/

namespace Peg

variable {α : Type} [Named α]

/-- The attempt fails, and its error is that of a match of `n` at `q`. -/
structure FailsThrough (ctx : Context α) (limit : Nat) (node : Node α) (text : Text) (pos : Nat)
    (e : ParseError α) (n : Node α) (q : Nat) : Prop where
  regular : ctx.IsRegular node
  pos_le : pos ≤ text.length
  failed : attempt ctx limit node text pos = .ok (.failed e)
  visited : ∃ g : Frame α, (Frame.top limit node text pos).Visits ctx g ∧ g.node = n ∧ g.pos = q ∧
    g.outcome ctx = .failure e

namespace FailsThrough

variable {ctx : Context α} {limit levels : Nat} {node n item : Node α} {text rest : Text}
  {pos q : Nat} {e : ParseError α} {ns : List (Node α)} {act : α} {v : Value α}

theorem of_attempt (hnode : ctx.IsRegular node) (hpos : pos ≤ text.length)
    (h : attempt ctx limit node text pos = .ok (.failed e)) :
    FailsThrough ctx limit node text pos e node pos where
  regular := hnode
  pos_le := hpos
  failed := h
  visited := ⟨_, .refl, rfl, rfl, Frame.outcome_of_failed h⟩

/-- An attempt fails where the reading finds no match. -/
theorem start (hnode : ctx.IsRegular node) (hpos : pos ≤ text.length) (hlimit : levels ≤ limit)
    (hread : ctx.Reads levels node (text.drop pos) .mismatch) :
    ∃ e, FailsThrough ctx limit node text pos e node pos := by
  have hanswer := attempt_answers_reading limit hnode hpos
  rw [hread limit hlimit] at hanswer
  obtain ⟨e, herror⟩ := hanswer
  exact ⟨e, .of_attempt hnode hpos herror⟩

/-- A visited match ends as the reading from its position does. -/
theorem agrees (h : FailsThrough ctx limit node text pos e n q) {g : Frame α}
    (hvisit : (Frame.top limit node text pos).Visits ctx g) (hq : g.pos = q)
    {r : Reading (Value α)} (hread : ctx.Reads levels g.node (text.drop q) r) :
    Agrees text (g.outcome ctx) r := by
  have hnofault : ∀ φ, g.outcome ctx ≠ .fault φ := by
    intro φ hφ
    cases (hvisit.fault hφ).symm.trans (Frame.outcome_of_failed h.failed)
  have hwithin := (hvisit.pos_le h.regular.keepsInside).2
  have hregular := h.regular.of_reaches hvisit.reaches
  have hinput := hvisit.input_eq
  obtain ⟨levels', input, active, m, p⟩ := g
  obtain rfl : input = .ofText text := hinput
  obtain rfl : p = q := hq
  have hle : (q : Int) ≤ max (pos : Int) (Input.ofText text).size := hwithin
  rw [Input.size_ofText] at hle
  have hpos := h.pos_le
  rcases matchNode_follows ctx text levels' active m q (by omega) hregular with
    hagrees | ⟨⟨t, p, hleft⟩, -⟩
  · cases hr : readNode ctx levels' m (text.drop q) with
    | stuck =>
        rw [hr] at hagrees
        exact absurd hagrees.fault_of_stuck (hnofault _)
    | matched w rest =>
        rw [hr] at hagrees
        rw [← hread _ (Nat.le_max_right levels' levels),
          readNode_matched_mono (Nat.le_max_left levels' levels) hr]
        exact hagrees
    | mismatch =>
        rw [hr] at hagrees
        rw [← hread _ (Nat.le_max_right levels' levels),
          readNode_mismatch_mono (Nat.le_max_left levels' levels) hr]
        exact hagrees
  · exact absurd hleft (hnofault _)

/-- What fails is not read. -/
theorem not_reads (h : FailsThrough ctx limit node text pos e n q) :
    ¬ ctx.Reads levels n (text.drop q) (.matched v rest) := by
  intro hread
  obtain ⟨g, hvisit, rfl, hq, houtcome⟩ := h.visited
  have hagrees := h.agrees hvisit hq hread
  rw [houtcome] at hagrees
  exact hagrees

/-- A match that is started where a reading finds no match fails. -/
theorem started (h : FailsThrough ctx limit node text pos e n q) {g k : Frame α}
    (hvisit : (Frame.top limit node text pos).Visits ctx g) (hstart : g.Starts ctx k)
    (hq : k.pos = q) (hread : ctx.Reads levels k.node (text.drop q) .mismatch) :
    ∃ e', k.outcome ctx = .failure e' := by
  exact (h.agrees (hvisit.tail hstart) hq hread).failure_of_mismatch

theorem target {id : Nat} {name : Value α} {m : Node α}
    (h : FailsThrough ctx limit node text pos e (.placeholder id name) q)
    (ht : ctx.bindings.target? id = some m) : FailsThrough ctx limit node text pos e m q := by
  obtain ⟨⟨levels, input, active, _, _⟩, hvisit, rfl, rfl, houtcome⟩ := h.visited
  cases levels with
  | zero => cases houtcome
  | succ levels =>
      by_cases hactive : (id, (q : Int)) ∈ active
      · rw [Frame.outcome, matchNode_reentered ht hactive] at houtcome
        exact absurd houtcome shownAs_ne_failure
      · rw [Frame.outcome, matchNode_entered ht hactive] at houtcome
        exact { h with visited := ⟨_, hvisit.tail (.target ht hactive), rfl, rfl, houtcome⟩ }

/-- A sequence whose first item finds no match has the error of that item. -/
theorem first (h : FailsThrough ctx limit node text pos e (.sequence (n :: ns)) q)
    (hread : ctx.Reads levels n (text.drop q) .mismatch) :
    FailsThrough ctx limit node text pos e n q := by
  obtain ⟨⟨levels', input, active, _, _⟩, hvisit, rfl, rfl, houtcome⟩ := h.visited
  cases levels' with
  | zero => cases houtcome
  | succ levels' =>
      have hstart : Frame.Starts ctx ⟨levels' + 1, input, active, .sequence (n :: ns), q⟩
          ⟨levels', input, active, n, q⟩ := .item List.mem_cons_self
      obtain ⟨e', he'⟩ := h.started hvisit hstart rfl hread
      have hitem : matchNode ctx levels' input active n q = .failure e' := he'
      rw [Frame.outcome, matchNode_sequence, matchAll, hitem] at houtcome
      cases houtcome
      exact { h with visited := ⟨_, hvisit.tail hstart, rfl, rfl, he'⟩ }

/-- An action whose item finds no match has the error of the item. -/
theorem argument (h : FailsThrough ctx limit node text pos e (.action item act) q)
    (hread : ctx.Reads levels item (text.drop q) .mismatch) :
    FailsThrough ctx limit node text pos e item q := by
  obtain ⟨⟨levels', input, active, _, _⟩, hvisit, rfl, rfl, houtcome⟩ := h.visited
  cases levels' with
  | zero => cases houtcome
  | succ levels' =>
      obtain ⟨e', he'⟩ := h.started hvisit .argument rfl hread
      have hitem : matchNode ctx levels' input active item q = .failure e' := he'
      rw [Frame.outcome, matchNode_action, hitem] at houtcome
      cases houtcome
      exact { h with visited := ⟨_, hvisit.tail .argument, rfl, rfl, he'⟩ }

/-- An action that raises an error on the result of its item creates the error of the
match. -/
theorem raised (h : FailsThrough ctx limit node text pos e (.action item act) q)
    (hread : ctx.Reads levels item (text.drop q) (.matched v rest)) {kind : Kind} {t : Text}
    (hact : ctx.perform act v = .raised (.shown kind t)) : e = .leaf (.transform kind t) q [] := by
  obtain ⟨⟨levels', input, active, _, _⟩, hvisit, rfl, rfl, houtcome⟩ := h.visited
  cases levels' with
  | zero => cases houtcome
  | succ levels' =>
      have hagrees := h.agrees (hvisit.tail .argument) rfl hread
      rw [Frame.outcome, matchNode_action] at houtcome
      simp only [Frame.outcome] at hagrees
      cases ho : matchNode ctx levels' input active item q with
      | failure _ | fault _ => rw [ho] at hagrees; exact hagrees.elim
      | success w stop =>
          rw [ho] at hagrees houtcome
          obtain ⟨rfl, -⟩ := hagrees
          have hfinish : settle (q : Int) (.shown kind t) = .failure e := by
            simpa only [Outcome.andThen, Context.finish, hact] using houtcome
          obtain ⟨kind', t', rfl, heq, -⟩ := settle_failure hfinish
          cases heq
          rfl

/-- A choice has an error of its own, with one error for each alternative. -/
theorem exhausted (h : FailsThrough ctx limit node text pos e (.choice ns) q) :
    ∃ es, es.length = ns.length ∧ e = .exhausted es q [] := by
  obtain ⟨⟨levels, input, active, _, _⟩, hvisit, rfl, rfl, houtcome⟩ := h.visited
  cases levels with
  | zero => cases houtcome
  | succ levels =>
      rw [Frame.outcome, matchNode_choice, Outcome.mapError_eq_failure] at houtcome
      obtain ⟨es, hes, rfl⟩ := houtcome
      exact ⟨es, (matchFirst_failure hes).length_eq.symm, rfl⟩

end FailsThrough

end Peg
