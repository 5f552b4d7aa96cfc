import Peg.Proofs.Agreement

/-!
# What a raw result was read from

The raw result of a grammar without actions is made of pieces of the text. Put one after
the other they are the text that was matched, no more and no less: a repeat drops only
results that hold nothing, a choice that gave up an alternative kept nothing of it, and
what an exclusion looked ahead at is no part of its result.

`Value.flat` puts the pieces together. `matchNode_yields` says that they are the slice
from the start of a match to its stop. Two slices that meet are one slice, so the loops
need to know no more than this about their parts.

A literal made without a check is the exception here as it is in `Peg.Proofs.Position`:
its result is the tuple of all its texts, whichever of them stands in the text.
-/

namespace Peg

variable {α : Type}

namespace Text

theorem anchor_of_nonneg {size : Nat} {i : Int} (h : 0 ≤ i) : anchor size i = min i.toNat size :=
  if_neg (by omega)

theorem slice_self (t : Text) (i : Int) : t.slice i i = [] := by
  rw [slice, List.drop_eq_nil_iff, List.length_take]
  exact Nat.min_le_left _ _

theorem slice_append {t : Text} {i j k : Int} (hi : 0 ≤ i) (hij : i ≤ j) (hjk : j ≤ k) :
    t.slice i j ++ t.slice j k = t.slice i k := by
  have hab : anchor t.length i ≤ anchor t.length j := by
    rw [anchor_of_nonneg hi, anchor_of_nonneg (by omega)]
    omega
  have hbc : anchor t.length j ≤ anchor t.length k := by
    rw [anchor_of_nonneg (by omega), anchor_of_nonneg (by omega)]
    omega
  have hc := anchor_le t.length k
  simp only [slice]
  generalize anchor t.length i = a at *
  generalize anchor t.length j = b at *
  generalize anchor t.length k = c at *
  have htake : t.take b = (t.take c).take b := by rw [List.take_take, Nat.min_eq_left hbc]
  have hlength : a ≤ ((t.take c).take b).length := by
    simp only [List.length_take]
    omega
  rw [htake, ← List.drop_append_of_le_length hlength, List.take_append_drop]

theorem length_slice {t : Text} {i j : Int} (hi : 0 ≤ i) (hij : i ≤ j) (hj : j ≤ t.length) :
    ((t.slice i j).length : Int) = j - i := by
  rw [slice, List.length_drop, List.length_take, anchor_of_nonneg hi,
    anchor_of_nonneg (by omega)]
  omega

end Text

/-- The text `read` is what stands from `pos` to `stop`. -/
def Text.Covers (t read : Text) (pos stop : Int) : Prop := pos ≤ stop ∧ read = t.slice pos stop

theorem Text.Covers.refl (t : Text) (pos : Int) : t.Covers [] pos pos :=
  ⟨Int.le_refl pos, (t.slice_self pos).symm⟩

theorem Text.Covers.append {t read read' : Text} {pos mid stop : Int} (hpos : 0 ≤ pos)
    (h : t.Covers read pos mid) (h' : t.Covers read' mid stop) :
    t.Covers (read ++ read') pos stop := by
  obtain ⟨hmid, rfl⟩ := h
  obtain ⟨hstop, rfl⟩ := h'
  exact ⟨Int.le_trans hmid hstop, slice_append hpos hmid hstop⟩

/-- Whatever succeeds has read the text from `pos` to where it stops; `flat` says what a
result was read from. -/
def Outcome.Yields {ε β : Type} (text : Text) (flat : β → Text) (pos : Int)
    (o : Outcome ε β) : Prop :=
  o.Meets (fun v stop => text.Covers (flat v) pos stop) (fun _ => True) (fun _ => True)

theorem Outcome.Yields.map {ε β γ : Type} {text : Text} {flat : β → Text} {flat' : γ → Text}
    {f : β → γ} {pos : Int} {o : Outcome ε β} (hf : ∀ v, flat' (f v) = flat v)
    (h : o.Yields text flat pos) : (o.map f).Yields text flat' pos := by
  rw [Outcome.Yields, Outcome.meets_map]
  exact h.imp (fun v stop hv => by rwa [hf]) (fun _ h => h) (fun _ h => h)

theorem Outcome.Yields.mapError {ε ε' β : Type} {text : Text} {flat : β → Text} {f : ε → ε'}
    {pos : Int} {o : Outcome ε β} (h : o.Yields text flat pos) :
    (o.mapError f).Yields text flat pos := Outcome.meets_mapError.mpr h

/-! ## Leaves -/

section Leaves

variable {text : Text} {pos : Int}

theorem slice_of_holds {t : Text} (hpos : 0 ≤ pos) (h : (Input.ofText text).holds t pos = true) :
    text.slice pos (pos + t.length) = t := by
  obtain ⟨p, rfl⟩ := Int.eq_ofNat_of_zero_le hpos
  have hp : p ≤ text.length := by
    rw [Input.holds, Bool.and_eq_true, decide_eq_true_eq, Input.size_ofText] at h
    omega
  have hprefix := (holds_iff hp t).mp h
  have hle := hprefix.length_le
  rw [List.length_drop] at hle
  have hstop : Text.anchor text.length (p + t.length : Int) = p + t.length := by
    rw [Text.anchor_of_nonneg (by omega)]
    omega
  rw [Text.slice, anchor_eq hp, hstop, List.drop_take, Nat.add_sub_cancel_left]
  exact (List.prefix_iff_eq_take.mp hprefix).symm

theorem slice_of_codePointAt {c : CodePoint} (hpos : 0 ≤ pos)
    (h : codePointAt (.ofText text) pos = .ok c) : text.slice pos (pos + 1) = [c] := by
  obtain ⟨p, rfl⟩ := Int.eq_ofNat_of_zero_le hpos
  have hat : text[p]? = some c := by
    rw [codePointAt, if_neg (by omega), Input.at?_ofText, Text.at?, if_neg (by omega)] at h
    cases hc : text[p]? with
    | none => simp [hc] at h
    | some d => simpa [hc] using h
  obtain ⟨hlt, hc⟩ := List.getElem?_eq_some_iff.mp hat
  have hstop : Text.anchor text.length (p + 1 : Int) = p + 1 := by
    rw [Text.anchor_of_nonneg (by omega)]
    omega
  rw [Text.slice, anchor_eq (Nat.le_of_lt hlt), hstop, List.drop_take, Nat.add_sub_cancel_left,
    List.drop_eq_getElem_cons hlt, hc]
  rfl

theorem matchLiteral_yields (t : Text) (hpos : 0 ≤ pos) :
    (matchLiteral (.ofText text) t pos : Match α).Yields text Value.flat pos := by
  rw [matchLiteral]
  split
  · next h => exact ⟨by omega, by rw [Value.flat, slice_of_holds hpos h]⟩
  · exact trivial

theorem failShowing_yields {d : Except Fault Text} {reason : Text → Reason α} :
    (failShowing pos d reason).Yields text Value.flat pos := by
  cases d <;> exact trivial

theorem matchCodePoint_yields {holds : CodePoint → Except Fault Bool} {d : Except Fault Text}
    (hpos : 0 ≤ pos) :
    (matchCodePoint (.ofText text) holds d pos : Match α).Yields text Value.flat pos := by
  rw [matchCodePoint]
  split
  · exact failShowing_yields
  · cases hc : codePointAt (.ofText text) pos with
    | error f => exact trivial
    | ok c =>
        simp only []
        cases holds c with
        | error f => exact trivial
        | ok b =>
            cases b with
            | true => exact ⟨by omega, by rw [Value.flat, slice_of_codePointAt hpos hc]⟩
            | false => exact failShowing_yields

variable [Named α]

theorem matchLeaf_yields {ctx : Context α} {limit : Nat} {active : Active} {node : Node α}
    (hleaf : node.IsLeaf) (htuple : ¬ node.IsTupleLiteral) (hpos : 0 ≤ pos) :
    (matchNode ctx (limit + 1) (.ofText text) active node pos).Yields text Value.flat pos := by
  cases node with
  | literal t => rw [matchNode_literal]; exact matchLiteral_yields t hpos
  | range low high => rw [matchNode_range]; exact matchCodePoint_yields hpos
  | looseRange low high =>
      show (matchLooseRange (.ofText text) low high pos).Yields text Value.flat pos
      exact matchCodePoint_yields hpos
  | looseLiteral v =>
      show (matchLooseLiteral ctx.bindings.isBound (.ofText text) v pos).Yields text Value.flat pos
      cases v with
      | text t => exact matchLiteral_yields t hpos
      | tuple items => exact absurd trivial htuple
      | _ => exact trivial
  | empty shared => rw [matchNode_empty]; exact .refl text pos
  | bare | stray value => exact trivial
  | sequence _ | choice _ | many _ | exclusion _ _ | capture _ _ | action _ _
  | placeholder _ _ => exact hleaf.elim

end Leaves

/-! ## The loops -/

section Loops

variable {text : Text} {pos : Int}

theorem matchAll_yields {step : Node α → Int → Match α} {items : List (Node α)}
    (hstep : ∀ n ∈ items, ∀ p, 0 ≤ p → (step n p).Yields text Value.flat p) (hpos : 0 ≤ pos) :
    (matchAll step items pos).Yields text Value.flatAll pos := by
  induction items generalizing pos with
  | nil => exact .refl text pos
  | cons n ns ih =>
      have hn := hstep n (by simp) pos hpos
      rw [matchAll]
      cases hs : step n pos with
      | failure e => exact trivial
      | fault f => exact trivial
      | success v mid =>
          rw [hs] at hn
          have hns := ih (fun m hm => hstep m (by simp [hm])) (Int.le_trans hpos hn.1)
          rw [Outcome.andThen, Outcome.Yields, Outcome.meets_map]
          refine hns.imp (fun vs stop hvs => ?_) (fun _ h => h) (fun _ h => h)
          rw [Value.flatAll]
          exact hn.append hpos hvs

theorem matchFirst_yields {step : Node α → Match α} {alternatives : List (Node α)}
    (hstep : ∀ n ∈ alternatives, (step n).Yields text Value.flat pos) :
    (matchFirst step alternatives).Yields text Value.flat pos :=
  (matchFirst_meets hstep).imp (fun _ _ h => h) (fun _ _ => trivial) (fun _ h => h)

/-- What a repeat stops at without moving on is dropped, and holds nothing. -/
theorem matchMany_yields {step : Int → Match α} {room : Nat}
    (hstep : ∀ p, 0 ≤ p → (step p).Yields text Value.flat p) (hpos : 0 ≤ pos) :
    (matchMany step room pos).Yields text Value.flatAll pos := by
  induction room generalizing pos with
  | zero => exact .refl text pos
  | succ room ih =>
      have hs := hstep pos hpos
      rw [matchMany]
      cases h : step pos with
      | failure e => exact .refl text pos
      | fault f => exact trivial
      | success v mid =>
          rw [h] at hs
          simp only []
          split
          · exact .refl text pos
          · rw [Outcome.Yields, Outcome.meets_map]
            refine (ih (Int.le_trans hpos hs.1)).imp (fun vs stop hvs => ?_) (fun _ h => h)
              (fun _ h => h)
            rw [Value.flatAll]
            exact hs.append hpos hvs

end Loops

/-! ## Whole matches -/

/-- No match of the node comes to an action. -/
def Bindings.IsPassive (b : Bindings α) (node : Node α) : Prop :=
  ∀ item act, ¬ b.Reaches node (.action item act)

variable [Named α]

/-- A match without actions has read the text from its start to its stop. -/
theorem matchNode_yields (ctx : Context α) (text : Text) (limit : Nat) :
    ∀ (active : Active) (node : Node α) (pos : Int), ctx.bindings.KeepsInside node →
      ctx.bindings.IsPassive node → 0 ≤ pos →
      (matchNode ctx limit (.ofText text) active node pos).Yields text Value.flat pos := by
  induction limit with
  | zero => intro active node pos _ _ _; rw [matchNode_zero]; exact trivial
  | succ limit ih =>
      intro active node pos hinside hpassive hpos
      have hpart : ∀ n ∈ node.parts, ∀ p, 0 ≤ p →
          (matchNode ctx limit (.ofText text) active n p).Yields text Value.flat p :=
        fun n hn p hp => ih active n p (fun m hm => hinside m (.head (.part hn) hm))
          (fun item act hm => hpassive item act (.head (.part hn) hm)) hp
      cases node with
      | sequence items =>
          rw [matchNode_sequence]
          exact (matchAll_yields hpart hpos).map fun vs => by rw [Value.flat]
      | choice alternatives =>
          rw [matchNode_choice]
          exact (matchFirst_yields fun n hn => hpart n hn pos hpos).mapError
      | many item =>
          rw [matchNode_many]
          exact (matchMany_yields (hpart item (by simp [Node.parts])) hpos).map
            fun vs => by rw [Value.flat]
      | exclusion item forbidden =>
          have hitem := hpart item (by simp [Node.parts]) pos hpos
          rw [matchNode_exclusion]
          cases h : matchNode ctx limit (.ofText text) active item pos with
          | failure e => exact trivial
          | fault f => exact trivial
          | success v stop =>
              rw [h] at hitem
              rw [Outcome.andThen]
              cases matchNode ctx limit (.ofText text) active forbidden pos with
              | success w q => exact failShowing_yields
              | failure e => exact hitem
              | fault f => exact trivial
      | capture label item =>
          rw [matchNode_capture]
          exact ((hpart item (by simp [Node.parts]) pos hpos).map
            fun v => by rw [Value.flat]).mapError
      | action item act => exact absurd .refl (hpassive item act)
      | placeholder id name =>
          have hshown : ∀ fault : Text → Fault,
              (ctx.shownAs id name fault).Yields text Value.flat pos := fun fault =>
            shownAs_meets (fun _ _ => trivial) (fun _ => trivial)
          cases ht : ctx.bindings.target? id with
          | none => rw [matchNode_unbound ht]; exact hshown _
          | some target =>
              by_cases hactive : (id, pos) ∈ active
              · rw [matchNode_reentered ht hactive]
                exact hshown _
              · rw [matchNode_entered ht hactive]
                exact ih _ target pos (fun m hm => hinside m (.head (.target ht) hm))
                  (fun item act hm => hpassive item act (.head (.target ht) hm)) hpos
      | bare | literal _ | range _ _ | empty _ | stray _ | looseLiteral _ | looseRange _ _ =>
          exact matchLeaf_yields trivial (hinside _ .refl) hpos

/-- The raw result of an attempt without actions holds the text that was consumed, in
order: nothing is lost and nothing is there twice. -/
theorem attempt_flat (ctx : Context α) (limit : Nat) (node : Node α) (text : Text) (pos : Int)
    (v : Value α) (n : Int) (hinside : ctx.bindings.KeepsInside node)
    (hpassive : ctx.bindings.IsPassive node) (hpos : 0 ≤ pos) (hle : pos ≤ text.length)
    (h : attempt ctx limit node text pos = .ok (.matched v n)) :
    v.flat = text.slice pos (pos + n) ∧ (v.flat.length : Int) = n := by
  have hyields := matchNode_yields ctx text limit [] node pos hinside hpassive hpos
  have hstop := matchNode_stop ctx (.ofText text) limit [] node pos hinside
  rw [attempt] at h
  cases ho : matchNode ctx limit (.ofText text) [] node pos with
  | failure e => rw [ho] at h; cases h
  | fault f => rw [ho] at h; cases f <;> cases h
  | success w stop =>
      rw [ho] at h hyields hstop
      obtain ⟨rfl, rfl⟩ : w = v ∧ stop - pos = n := by simpa [Outcome.toAttempt] using h
      obtain ⟨hmove, hflat⟩ : pos ≤ stop ∧ w.flat = text.slice pos stop := hyields
      obtain ⟨-, hend⟩ : pos ≤ stop ∧ stop ≤ max pos (Input.ofText text).size := hstop
      rw [Input.size_ofText] at hend
      have hstop : pos + (stop - pos) = stop := by omega
      rw [hstop, hflat]
      exact ⟨rfl, Text.length_slice hpos hmove (by omega)⟩

/-! ## Nested brackets -/

namespace Brackets

/-- The grammar has no actions. -/
inductive Action

instance : Named Action := ⟨nofun, nofun⟩

def ref : Node Action := .placeholder 0 (.text "tree")

/-- The rule `tree = "(" tree* ")" | letter`, where a letter is any code point but the
brackets, and the trees in brackets are captured. -/
def rule : Node Action :=
  .choice [.sequence [.literal "(", .capture (.text "inner") (.many ref), .literal ")"],
    .exclusion (.range 0 0x10FFFF) (.choice [.literal "(", .literal ")"])]

def context : Context Action := ⟨Bindings.empty.bind 0 rule, nofun⟩

theorem isRegular : context.IsRegular ref :=
  Context.isRegular_of_isReady (by decide) (by decide) nofun

/-- The result of `(` inner `)`. -/
def around (inner : List (Value Action)) : Value Action :=
  .tuple [.text "(", .captured (.text "inner") (.list inner), .text ")"]

/-- The brackets of `x(a(b))`, with all that is in them. -/
theorem attempt_flat_nested :
    context.bindings.KeepsInside ref ∧ context.bindings.IsPassive ref ∧
      attempt context 16 ref "x(a(b))" 1 =
        .ok (.matched (around [.text "a", around [.text "b"]]) 6) ∧
      (around [.text "a", around [.text "b"]]).flat = Text.slice "x(a(b))" 1 7 := by
  have hpassive : context.bindings.IsPassive ref := fun _ act => nomatch act
  have hmatched : attempt context 16 ref "x(a(b))" 1 =
      .ok (.matched (around [.text "a", around [.text "b"]]) 6) := rfl
  exact ⟨isRegular.keepsInside, hpassive, hmatched,
    (attempt_flat context 16 ref "x(a(b))" 1 _ 6 isRegular.keepsInside hpassive (by decide)
      (by decide) hmatched).1⟩

end Brackets

end Peg
