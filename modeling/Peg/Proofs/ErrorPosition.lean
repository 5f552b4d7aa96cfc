import Peg.Proofs.ErrorTree
import Peg.Proofs.Yield

/-!
# Where errors are, and what is there

Every error in the tree of a failure was created by a match of the run, at the position of
that match (`Frame.exists_creates`). Matches stay between the start and the end of the text,
and so do errors.

A leaf that does not match says what it found instead. Inside the text that is a piece of
the text, and never an empty one: a range looks at one code point, and the empty literal,
which would look at none, matches wherever it is tried. At the end of the text nothing is
left to be found. So the message of a mismatch, which ends in the piece in quotes or else in
words that say that the text ended, tells the two apart.
-/

namespace Peg

variable {α : Type}

/-! ## What a mismatch found -/

/-- What is found at a position of a text: nothing at its end, and elsewhere a piece of the
text that starts there. -/
structure Text.Shows (text : Text) (pos : Int) (found : Option Text) : Prop where
  at_end : found.getD [] = [] ↔ pos = text.length
  inside : pos ≠ text.length → ∃ t, found = some t ∧ t ≠ [] ∧ t = text.slice pos (pos + t.length)

namespace Text

variable {text t : Text} {pos : Int}

theorem Shows.nothing {found : Option Text} (hpos : pos = text.length)
    (hfound : found.getD [] = []) : text.Shows pos found where
  at_end := iff_of_true hfound hpos
  inside h := absurd hpos h

theorem Shows.piece (hne : t ≠ []) (hpos : pos ≠ text.length)
    (ht : t = text.slice pos (pos + t.length)) : text.Shows pos (some t) where
  at_end := iff_of_false hne hpos
  inside _ := ⟨t, rfl, hne, ht⟩

theorem slice_eq_take (hpos : 0 ≤ pos) (hle : pos ≤ text.length) (n : Nat) :
    text.slice pos (pos + n) = (text.drop pos.toNat).take n := by
  have hn : anchor text.length (pos + n) - pos.toNat = min n (text.length - pos.toNat) := by
    rw [anchor_of_nonneg (by omega)]
    omega
  rw [slice, List.drop_take, anchor_of_nonneg hpos, Nat.min_eq_left (by omega), hn,
    ← List.length_drop, ← List.take_eq_take_min]

/-- The code points that a text could stand on. -/
theorem shows_slice (hpos : 0 ≤ pos) (hle : pos ≤ text.length) (ht : t ≠ []) :
    text.Shows pos (some (text.slice pos (pos + t.length))) := by
  by_cases hend : pos = text.length
  · refine .nothing hend ?_
    rw [slice_eq_take hpos hle]
    simp [hend]
  · have hlength : 0 < t.length := List.length_pos_iff.mpr ht
    rw [slice_eq_take hpos hle]
    refine .piece ?_ hend ?_
    · simp only [ne_eq, List.take_eq_nil_iff, List.drop_eq_nil_iff]
      omega
    · rw [slice_eq_take hpos hle, List.length_take, ← List.take_eq_take_min]

/-- A quoted text ends in the quote that it is written between. -/
theorem getLast?_quoted (t : Text) : t.quoted.getLast? = some t.quoteFor := by
  rw [quoted, List.getLast?_append]
  rfl

theorem quoteFor_cases (t : Text) :
    t.quoteFor = CodePoint.doubleQuote ∨ t.quoteFor = CodePoint.singleQuote := by
  rw [quoteFor]
  split
  · exact .inl rfl
  · exact .inr rfl

end Text

namespace Reason

variable {expected : Text} {found : Option Text}

theorem foundText_of_nil (h : found.getD [] = []) : foundText found = "end of input" := by
  rcases found with _ | _ | _
  · rfl
  · rfl
  · cases h

theorem foundText_of_ne_nil (h : found.getD [] ≠ []) : ∃ t : Text, foundText found = t.quoted := by
  rcases found with _ | _ | ⟨c, cs⟩
  · exact absurd rfl h
  · exact absurd rfl h
  · exact ⟨c :: cs, rfl⟩

/-- The message of a mismatch says that the text ended when nothing was found, and ends in a
quote otherwise. -/
theorem isSuffix_text_mismatch :
    Text.ofString "but got end of input" <:+ (mismatch expected found : Reason α).text ↔
      found.getD [] = [] := by
  by_cases hnil : found.getD [] = []
  · have hend : Text.ofString "but got end of input" =
        Text.ofString "but got " ++ Text.ofString "end of input" := by decide
    have hgot : Text.ofString ", but got " = Text.ofString ", " ++ Text.ofString "but got " := by
      decide
    refine iff_of_true ⟨"expected " ++ expected ++ Text.ofString ", ", ?_⟩ hnil
    rw [text, foundText_of_nil hnil, hend, hgot]
    simp only [List.append_assoc]
  · refine iff_of_false ?_ hnil
    rintro ⟨front, hfront⟩
    obtain ⟨t, ht⟩ := foundText_of_ne_nil hnil
    have hword : (Text.ofString "but got end of input").getLast? =
        some (CodePoint.ofChar 't') := by decide
    have hlast := congrArg List.getLast? hfront
    rw [text, ht, List.getLast?_append, List.getLast?_append, hword, Text.getLast?_quoted,
      Option.some_or, Option.some_or] at hlast
    rcases t.quoteFor_cases with hquote | hquote
    · rw [hquote] at hlast
      exact absurd hlast (by decide)
    · rw [hquote] at hlast
      exact absurd hlast (by decide)

end Reason

/-! ## Leaves -/

section Leaves

variable {text : Text} {pos : Int} {expected : Text} {found : Option Text}

theorem matchLiteral_shows {t : Text} (hpos : 0 ≤ pos) (hle : pos ≤ text.length)
    (h : (matchLiteral (.ofText text) t pos : Match α) =
      .failure (.leaf (.mismatch expected found) pos [])) : text.Shows pos found := by
  rw [matchLiteral] at h
  split at h
  · cases h
  · next hholds =>
      have ht : t ≠ [] := by
        rintro rfl
        refine hholds ?_
        rw [Input.holds, Input.startsAt, Input.size_ofText]
        simpa using hle
      cases h
      rw [Input.slice_ofText]
      exact Text.shows_slice hpos hle ht

theorem matchCodePoint_shows {holds : CodePoint → Except Fault Bool} {d : Except Fault Text}
    (hpos : 0 ≤ pos) (hle : pos ≤ text.length)
    (h : (matchCodePoint (.ofText text) holds d pos : Match α) =
      .failure (.leaf (.mismatch expected found) pos [])) : text.Shows pos found := by
  rw [matchCodePoint, Input.size_ofText] at h
  split at h
  · next hend =>
      obtain ⟨t, heq⟩ := failShowing_failure h
      cases heq
      exact .nothing (by omega) rfl
  · next hend =>
      cases hc : codePointAt (.ofText text) pos with
      | error f => rw [hc] at h; cases h
      | ok c =>
          rw [hc] at h
          simp only [] at h
          cases hb : holds c with
          | error f => rw [hb] at h; cases h
          | ok b =>
              rw [hb] at h
              cases b with
              | true => cases h
              | false =>
                  obtain ⟨t, heq⟩ := failShowing_failure h
                  cases heq
                  exact .piece (by simp) (by omega) (slice_of_codePointAt hpos hc).symm

variable [Named α]

theorem matchLeaf_shows {ctx : Context α} {limit : Nat} {active : Active} {node : Node α}
    (hleaf : node.IsLeaf) (htuple : ¬ node.IsTupleLiteral) (hpos : 0 ≤ pos)
    (hle : pos ≤ text.length)
    (h : matchNode ctx (limit + 1) (.ofText text) active node pos =
      .failure (.leaf (.mismatch expected found) pos [])) : text.Shows pos found := by
  cases node with
  | literal t => exact matchLiteral_shows hpos hle h
  | range low high => exact matchCodePoint_shows hpos hle h
  | looseRange low high => exact matchCodePoint_shows hpos hle h
  | looseLiteral value =>
      cases value with
      | text t => exact matchLiteral_shows hpos hle h
      | tuple items => exact absurd trivial htuple
      | _ => simp [matchNode, matchLooseLiteral] at h
  | empty _ | bare | stray _ => cases h
  | sequence _ | choice _ | many _ | exclusion _ _ | capture _ _ | action _ _
  | placeholder _ _ => exact hleaf.elim

end Leaves

/-! ## Failures -/

variable [Named α]

namespace Frame

variable {ctx : Context α} {limit : Nat} {node : Node α} {text : Text} {pos : Int}
  {e e' : ParseError α}

theorem pos_le_of_mem_tree (hinside : ctx.bindings.KeepsInside node)
    (h : (top limit node text pos).outcome ctx = .failure e) (he' : e' ∈ e.tree) :
    e'.pos ≤ max pos text.length := by
  obtain ⟨g, hvisit, hcreates⟩ := exists_creates h he'
  have hwithin := (hvisit.pos_le hinside).2
  rw [← e'.pos_unlabelled, hcreates.pos_eq]
  rwa [show (top limit node text pos).input.size = text.length from Input.size_ofText text]
    at hwithin

/-- A mismatch in the tree of a failure is that of a leaf of the grammar. -/
theorem shows_of_mem_tree (hinside : ctx.bindings.KeepsInside node) (hpos : 0 ≤ pos)
    (hle : pos ≤ text.length) (h : (top limit node text pos).outcome ctx = .failure e)
    {expected : Text} {found : Option Text} {p : Int} {labels : List (Value α)}
    (he' : .leaf (.mismatch expected found) p labels ∈ e.tree) : text.Shows p found := by
  obtain ⟨g, hvisit, hcreates⟩ := exists_creates h he'
  have hfrom : pos ≤ p := le_pos_of_mem_tree h he'
  have hupto : p ≤ max pos text.length := pos_le_of_mem_tree hinside h he'
  have hinput := hvisit.input_eq
  have htuple := hinside g.node hvisit.reaches
  obtain ⟨levels, input, active, n, q⟩ := g
  obtain rfl : input = .ofText text := hinput
  cases hcreates with
  | mismatch hleaf houtcome =>
      cases levels with
      | zero => cases houtcome
      | succ levels => exact matchLeaf_shows hleaf htuple (by omega) (by omega) houtcome

end Frame

/-- A match stays between the position it starts at and the end of the text, and so does
every error in the tree of a failure. No error starts before the one that it is part of; a
choice that is exhausted has one error for each of its alternatives. A mismatch says that the
text ended just where it did, and shows a piece of the text anywhere else. -/
theorem attempt_within (ctx : Context α) (limit : Nat) (node : Node α) (text : Text) (pos : Int)
    (hinside : ctx.bindings.KeepsInside node) :
    (∀ v n, attempt ctx limit node text pos = .ok (.matched v n) →
      0 ≤ n ∧ pos + n ≤ max pos text.length) ∧
    ∀ e, attempt ctx limit node text pos = .ok (.failed e) → ∀ e' ∈ e.tree,
      (pos ≤ e'.pos ∧ e'.pos ≤ max pos text.length) ∧
      (∀ child ∈ e'.children, e'.pos ≤ child.pos) ∧
      (e'.kind = .choiceExhausted → ∃ f : Frame α,
        (Frame.top limit node text pos).Visits ctx f ∧ f.pos = e'.pos ∧
          f.Exhausts ctx e'.children) ∧
      (0 ≤ pos → pos ≤ text.length → ∀ expected found p labels,
        e' = .leaf (.mismatch expected found) p labels →
          (found.getD [] = [] ↔ p = text.length) ∧
          (Text.ofString "but got end of input" <:+ e'.message ↔ p = text.length) ∧
          (p ≠ text.length →
            ∃ t, found = some t ∧ t ≠ [] ∧ t = text.slice p (p + t.length))) := by
  refine ⟨fun v n h => ?_, fun e h e' he' => ?_⟩
  · have hstop := matchNode_stop ctx (.ofText text) limit [] node pos hinside
    rw [Outcome.toAttempt_eq_matched.mp h, Input.size_ofText] at hstop
    obtain ⟨hlow, hhigh⟩ : pos ≤ pos + n ∧ pos + n ≤ max pos (text.length : Int) := hstop
    omega
  · have hfailure := Frame.outcome_of_failed h
    refine ⟨⟨Frame.le_pos_of_mem_tree hfailure he', Frame.pos_le_of_mem_tree hinside hfailure he'⟩,
      Frame.isOrdered_of_failure hfailure e' he', fun hkind => ?_, ?_⟩
    · cases e' with
      | leaf reason p labels => cases reason <;> cases hkind
      | exhausted children p labels => exact Frame.exists_exhausts hfailure he'
    · rintro hpos hle expected found p labels rfl
      have hshows := Frame.shows_of_mem_tree hinside hpos hle hfailure he'
      exact ⟨hshows.at_end,
        (Reason.isSuffix_text_mismatch (α := α)).trans hshows.at_end, hshows.inside⟩

namespace Months

/-- Of the month `1` the first digit is there and the second one is missing at the end. -/
theorem attempt_within_short :
    context.bindings.KeepsInside month ∧
      attempt context 16 month "1" 0 = .ok (.failed short) ∧
      (∀ e ∈ short.tree, 0 ≤ e.pos ∧ e.pos ≤ 1) ∧
      Text.ofString "but got end of input" <:+ (missing "2" "" 1).message ∧
      ¬ Text.ofString "but got end of input" <:+ (missing "0" "1" 0).message := by
  have hinside : context.bindings.KeepsInside month :=
    (Context.isRegular_of_isReady (by decide) (by decide) nofun :
      context.IsRegular month).keepsInside
  have hshort := (attempt_within context 16 month "1" 0 hinside).2 short attempt_short
  have hfirst := (hshort (missing "0" "1" 0) (by simp [short, missing,
    ParseError.tree, ParseError.treesOf])).2.2.2 (by decide) (by decide) _ _ _ _ rfl
  have hsecond := (hshort (missing "2" "" 1) (by simp [short, missing,
    ParseError.tree, ParseError.treesOf])).2.2.2 (by decide) (by decide) _ _ _ _ rfl
  exact ⟨hinside, attempt_short, fun e he => (hshort e he).1, hsecond.2.1.mpr rfl,
    fun h => absurd (hfirst.2.1.mp h) (by decide)⟩

end Months

end Peg
